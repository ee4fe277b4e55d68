import Solo.Ingest.Chunk
import Solo.Ingest.Cuts

/-!
# What redaction after cutting protects

A secret is a stretch of the parsed text that the registry matches and does not leave as it is, when
it redacts the text as a whole. Ingest redacts each chunk after cutting it out, and takes the title
from the text before redaction. Where every cut next to a secret leaves the matches of the two sides
as they are in the whole, and no secret stands in the heading, none is stored
(`ingest_protects_iff`): the marked text follows each character into the chunks.
-/

namespace Solo

open Letters

/-- The ranges that the pattern replaces in a text. -/
def RedactionPattern.hits (p : RedactionPattern) (cs : List Char) : List (ℕ × ℕ) :=
  ((p.regex.capturesIter cs).map fun m => (m.start, m.stop)).filter fun r =>
    p.kind = .literal || luhnCheck (slice cs r.1 r.2)

/-- The whole text, marked, as the first patterns leave it. -/
def redactedBy (patterns : List RedactionPattern) (text : List Char) : List Marked :=
  (patterns.foldl (RedactionRegistry.redactStep marked) ⟨mark 0 text, []⟩).text

/-- Redacting a text takes its character `p` away. -/
def RedactionRegistry.Hides (reg : RedactionRegistry) (text : List Char) (p : ℕ) : Prop :=
  ¬ Shows (reg.redact marked (mark 0 text)).text p

/-- The characters from `a` up to `b` are what a pattern matches in its turn, and some of them are
taken away. -/
def Secret (reg : RedactionRegistry) (text : List Char) (a b : ℕ) : Prop :=
  a < b ∧ b ≤ text.length ∧
  (∃ before p after, reg.active = before ++ p :: after ∧
    ∃ r ∈ p.hits ((redactedBy before text).map Prod.fst), slice (redactedBy before text) r.1 r.2 =
      mark a (slice text a b)) ∧
  ∃ p, a ≤ p ∧ p < b ∧ reg.Hides text p

/-- The stored texts without the positions. -/
def ChunkSpec.forget (spec : ChunkSpec Marked) : ChunkSpec Char :=
  { spec with content := spec.content.map Prod.fst }

def IngestedDocument.forget (d : IngestedDocument Marked) : IngestedDocument Char :=
  ⟨d.title, d.chunks.map ChunkSpec.forget⟩

/-- No secret stands in the title, or can be read from the chunks, each character at its place in
one of them. -/
def StoresNoSecret (reg : RedactionRegistry) (text : List Char) (d : IngestedDocument Marked) :
    Prop :=
  ∀ a b, Secret reg text a b →
    ¬ slice text a b <:+: d.title ∧ ∃ p, a ≤ p ∧ p < b ∧ ∀ spec ∈ d.chunks, ¬ Shows spec.content p

/-- No secret stands in the first heading of the first 64 lines, or, where they have none, in the
file stem. -/
def TitleClear (reg : RedactionRegistry) (text : List Char) (fileStem : Option (List Char)) :
    Prop :=
  ∀ a b, Secret reg text a b →
    (∀ before line after title, ((splitInclusive text).map stripLineEnd).take 64 = before ++
      line :: after →
      (∀ l ∈ before, heading l = none) → heading line = some title → ¬ slice text a b <:+: title) ∧
    ((∀ l ∈ ((splitInclusive text).map stripLineEnd).take 64, heading l = none) →
      ¬ slice text a b <:+: fileStem.getD "(untitled)".toList)

/-- Where a range that is cut out lies over a secret, neither of its ends changes what the patterns
find: each finds on the two sides what it finds in the whole, so that no match lies across the
cut. -/
def CutsApart (reg : RedactionRegistry) (config : ChunkConfig) (text : List Char) : Prop :=
  ∀ a b, Secret reg text a b → ∀ w ∈ chunkWindows config text, w.1 < b → a < w.2 →
    (0 < w.1 → SplitsAt plain reg.active (text.take w.1) (text.drop w.1)) ∧
    (w.2 < text.length → SplitsAt plain reg.active (slice text w.1 w.2) (text.drop w.2))

/-- Every secret has a character that each chunk over it, redacted alone, takes away. -/
def CutsProtect (reg : RedactionRegistry) (config : ChunkConfig) (text : List Char) : Prop :=
  ∀ a b, Secret reg text a b → ∃ p, a ≤ p ∧ p < b ∧
    ∀ w ∈ chunkWindows config text, w.1 ≤ p → p < w.2 → reg.Hides (slice text w.1 w.2) (p - w.1)

section Proof

variable {reg : RedactionRegistry} {config : ChunkConfig} {text : List Char}
  {fileStem : Option (List Char)}

/-- Redaction makes up no position. -/
theorem shows_redact {l : List Marked} {p : ℕ} (h : Shows (reg.redact marked l).text p) :
    Shows l p := by
  obtain ⟨c, hc⟩ := h
  rcases mem_redact hc with hc | ⟨c', hc'⟩
  · exact ⟨c, hc⟩
  · simp [marked] at hc'

/-- The marked chunk of a window shows what the window's own redaction leaves, shifted to its
place. -/
theorem shows_chunk {w : ℕ × ℕ} {p : ℕ} :
    Shows (redactChunk marked reg (pushChunk marked (mark 0 text) w)).content p ↔
      w.1 ≤ p ∧ ¬ reg.Hides (slice text w.1 w.2) (p - w.1) := by
  have hslice : slice (mark 0 text) w.1 w.2 = (mark 0 (slice text w.1 w.2)).map (shift w.1) := by
    rw [slice_mark, mark_shift]
  show Shows (reg.redact marked (slice (mark 0 text) w.1 w.2)).text p ↔ _
  rw [hslice, redact_map (Hom.shift w.1), shows_shift, RedactionRegistry.Hides, not_not]

/-- A window says nothing about a position behind it. -/
theorem hides_of_le {w : ℕ × ℕ} {p : ℕ} (h : w.2 ≤ p) :
    reg.Hides (slice text w.1 w.2) (p - w.1) := by
  intro hshow
  have hlt := shows_mark.1 (shows_redact hshow)
  have hlen : (slice text w.1 w.2).length ≤ w.2 - w.1 := by
    rw [slice, List.length_drop, List.length_take]
    omega
  omega

theorem chunkText_marked (config : ChunkConfig) (text : List Char) :
    chunkText marked config (mark 0 text) = (chunkWindows config text).map
    (pushChunk marked (mark 0 text)) := by
  rw [chunkText, map_char_mark]

theorem forget_pushChunk (text : List Char) (w : ℕ × ℕ) :
    (redactChunk marked reg (pushChunk marked (mark 0 text) w)).forget =
    redactChunk plain reg (pushChunk plain text w) := by
  have hfst : (mark 0 text).map Prod.fst = text := map_char_mark 0 text
  have hplain : text.map plain.char = text := List.map_id text
  have hcontent : (reg.redact marked (slice (mark 0 text) w.1 w.2)).text.map Prod.fst =
      (reg.redact plain (slice text w.1 w.2)).text := by
    rw [← redact_map Hom.forget, map_slice, hfst]
  have hlen : (slice (mark 0 text) w.1 w.2).length = (slice text w.1 w.2).length := by
    conv_rhs => rw [← hfst, ← map_slice, List.length_map]
  simp only [ChunkSpec.forget, redactChunk, pushChunk, hcontent, hlen, map_char_mark, hplain]

/-- Following the characters changes nothing about what is stored. -/
theorem ingestDocument_forget (reg : RedactionRegistry) (config : ChunkConfig) (text : List Char)
    (fileStem : Option (List Char)) :
    ingestDocument plain reg config text fileStem =
      (ingestDocument marked reg config (mark 0 text) fileStem).map IngestedDocument.forget := by
  have hplain : text.map plain.char = text := List.map_id text
  unfold ingestDocument
  simp only [map_char_mark, chunkText, hplain, List.isEmpty_map]
  split
  · rfl
  · simp only [Except.map, IngestedDocument.forget, List.map_map]
    refine congrArg Except.ok (congrArg (IngestedDocument.mk _) (List.map_congr_left fun w _ => ?_))
    exact (forget_pushChunk text w).symm

/-- What is stored of a marked text: the redacted windows. -/
def markedDocument (reg : RedactionRegistry) (config : ChunkConfig) (text : List Char)
    (fileStem : Option (List Char)) : IngestedDocument Marked :=
  ⟨deriveDocumentTitle text fileStem,
    (chunkWindows config text).map fun w =>
      redactChunk marked reg (pushChunk marked (mark 0 text) w)⟩

theorem ingestDocument_eq_ok {d : IngestedDocument Marked} :
    ingestDocument marked reg config (mark 0 text) fileStem = .ok d ↔
      (chunkWindows config text).isEmpty = false ∧ d = markedDocument reg config text fileStem := by
  unfold ingestDocument
  simp only [chunkText_marked, map_char_mark, List.map_map, List.isEmpty_map]
  split
  case isTrue h => simp [h]
  case isFalse h =>
    refine ⟨fun hd => ⟨Bool.eq_false_of_not_eq_true h, (Except.ok.inj hd).symm⟩, ?_⟩
    rintro ⟨-, rfl⟩
    rfl

theorem storesNoSecret_iff {d : IngestedDocument Marked}
    (h : ingestDocument marked reg config (mark 0 text) fileStem = .ok d) :
    StoresNoSecret reg text d ↔ CutsProtect reg config text ∧
      ∀ a b, Secret reg text a b → ¬ slice text a b <:+: deriveDocumentTitle text fileStem := by
  obtain ⟨-, rfl⟩ := ingestDocument_eq_ok.1 h
  constructor
  · intro hd
    refine ⟨fun a b hs => ?_, fun a b hs => (hd a b hs).1⟩
    obtain ⟨p, hap, hpb, hchunks⟩ := (hd a b hs).2
    refine ⟨p, hap, hpb, fun w hw hle _ => ?_⟩
    by_contra hshow
    exact hchunks _ (List.mem_map_of_mem hw) (shows_chunk.2 ⟨hle, hshow⟩)
  · rintro ⟨hcuts, htitle⟩ a b hs
    refine ⟨htitle a b hs, ?_⟩
    obtain ⟨p, hap, hpb, hwindows⟩ := hcuts a b hs
    refine ⟨p, hap, hpb, fun spec hspec hshow => ?_⟩
    obtain ⟨w, hw, rfl⟩ := List.mem_map.1 hspec
    obtain ⟨hle, hnot⟩ := shows_chunk.1 hshow
    by_cases hp : p < w.2
    · exact hnot (hwindows w hw hle hp)
    · exact hnot (hides_of_le (not_lt.1 hp))

/-- What the redaction of a range shows, that of the whole text shows, if the cuts leave the matches
as they are. -/
theorem shows_of_window (hre : ∀ p ∈ reg.active, p.regex.Within) {w : ℕ × ℕ} (hle : w.1 ≤ w.2)
    (hstart : 0 < w.1 → SplitsAt plain reg.active (text.take w.1) (text.drop w.1))
    (hstop : w.2 < text.length → SplitsAt plain reg.active (slice text w.1 w.2) (text.drop w.2))
    {p : ℕ} (h : Shows (reg.redact marked (slice (mark 0 text) w.1 w.2)).text p) :
    Shows (reg.redact marked (mark 0 text)).text p := by
  have hfst : (mark 0 text).map Prod.fst = text := map_char_mark 0 text
  have happend {as bs : List Marked}
      (hsplit : SplitsAt plain reg.active (as.map Prod.fst) (bs.map Prod.fst))
      (hshow : Shows (reg.redact marked as).text p ∨ Shows (reg.redact marked bs).text p) :
      Shows (reg.redact marked (as ++ bs)).text p := by
    rw [redact_append hre ((splitsAt_map Hom.forget _ as bs).1 hsplit)]
    rcases hshow with ⟨c, hc⟩ | ⟨c, hc⟩
    · exact ⟨c, List.mem_append_left _ hc⟩
    · exact ⟨c, List.mem_append_right _ hc⟩
  -- the range is a part of the rest of the text from its start on
  have hrest : Shows (reg.redact marked ((mark 0 text).drop w.1)).text p := by
    have hlen : (mark 0 text).length = text.length := by rw [← hfst, List.length_map, hfst]
    by_cases hw : w.2 < text.length
    · have hparts : (mark 0 text).drop w.1 = slice (mark 0 text) w.1 w.2 ++
          (mark 0 text).drop w.2 := by
        have hdrop := List.take_append_drop (w.2 - w.1) ((mark 0 text).drop w.1)
        rw [List.drop_drop, Nat.add_sub_cancel' hle] at hdrop
        rw [slice, List.drop_take, hdrop]
      rw [hparts]
      refine happend ?_ (.inl h)
      rw [map_slice, List.map_drop, hfst]
      exact hstop hw
    · have hwhole : slice (mark 0 text) w.1 w.2 = (mark 0 text).drop w.1 := by
        rw [slice, List.take_of_length_le (by omega)]
      rwa [hwhole] at h
  by_cases hw : 0 < w.1
  · rw [← List.take_append_drop w.1 (mark 0 text)]
    refine happend ?_ (.inr hrest)
    rw [List.map_take, List.map_drop, hfst]
    exact hstart hw
  · rwa [Nat.eq_zero_of_not_pos hw, List.drop_zero] at hrest

theorem CutsApart.protect (hre : ∀ p ∈ reg.active, p.regex.Within) (h : CutsApart reg config text) :
    CutsProtect reg config text := by
  intro a b hs
  obtain ⟨p, hap, hpb, hhides⟩ := hs.2.2.2
  refine ⟨p, hap, hpb, fun w hw hle hlt hshow => hhides ?_⟩
  obtain ⟨hstart, hstop⟩ := h a b hs w hw (Nat.lt_of_le_of_lt hle hpb) (Nat.lt_of_le_of_lt hap hlt)
  refine shows_of_window hre (Nat.le_of_lt (Nat.lt_of_le_of_lt hle hlt)) hstart hstop ?_
  by_contra hnot
  refine shows_chunk.not.1 hnot ⟨hle, ?_⟩
  rw [RedactionRegistry.Hides, not_not]
  exact hshow

/-- A text that makes one chunk is not cut. -/
theorem cutsApart_of_one (h : chunkWindows config text = [(0, text.length)]) :
    CutsApart reg config text := by
  intro a b _ w hw _ _
  rw [h] at hw
  obtain rfl := List.mem_singleton.1 hw
  exact ⟨fun hpos => absurd hpos (Nat.lt_irrefl 0), fun hlt => absurd hlt (Nat.lt_irrefl _)⟩

theorem titleClear_iff : TitleClear reg text fileStem ↔
    ∀ a b, Secret reg text a b → ¬ slice text a b <:+: deriveDocumentTitle text fileStem := by
  unfold TitleClear
  refine forall_congr' fun a => forall_congr' fun b => imp_congr_right fun _ => ?_
  unfold deriveDocumentTitle
  cases hfind : (((splitInclusive text).map stripLineEnd).take 64).findSome? heading with
  | none =>
    have hnone := List.findSome?_eq_none_iff.1 hfind
    refine ⟨fun h => h.2 hnone,
      fun h => ⟨fun before line after title heq _ htitle => ?_, fun _ => h⟩⟩
    rw [hnone line (heq ▸ List.mem_append_right _ List.mem_cons_self)] at htitle
    cases htitle
  | some title =>
    obtain ⟨before, line, after, heq, htitle, hbefore⟩ := List.findSome?_eq_some_iff.1 hfind
    constructor
    · exact fun h => h.1 before line after title heq (fun l hl => hbefore l hl) htitle
    · refine fun h => ⟨fun before' line' after' title' heq' hbefore' htitle' => ?_, fun hnone => ?_⟩
      · have hsame : (((splitInclusive text).map stripLineEnd).take 64).findSome? heading =
            some title' :=
          List.findSome?_eq_some_iff.2 ⟨before', line', after', heq', htitle', hbefore'⟩
        rw [hfind] at hsame
        obtain rfl := Option.some.inj hsame
        exact h
      · rw [hnone line (heq ▸ List.mem_append_right _ List.mem_cons_self)] at htitle
        cases htitle

end Proof

/-- Following the characters changes nothing about what is stored. A document is stored without a
secret where none stands in the heading and every cut next to one leaves the matches as they are, as
in a text that makes one chunk. It is exactly where none stands in the heading and each has a
character that the registry takes away in every range over it. -/
theorem ingest_protects_iff (reg : RedactionRegistry) (config : ChunkConfig) (text : List Char)
    (fileStem : Option (List Char)) (hre : ∀ p ∈ reg.active, p.regex.Within) :
    ingestDocument plain reg config text fileStem =
      (ingestDocument marked reg config (mark 0 text) fileStem).map IngestedDocument.forget ∧
    ∀ d, ingestDocument marked reg config (mark 0 text) fileStem = .ok d →
      (TitleClear reg text fileStem → CutsApart reg config text → StoresNoSecret reg text d) ∧
      (chunkWindows config text = [(0, text.length)] → CutsApart reg config text) ∧
      (StoresNoSecret reg text d ↔ TitleClear reg text fileStem ∧ CutsProtect reg config text) := by
  refine ⟨ingestDocument_forget reg config text fileStem, fun d h => ?_⟩
  have hiff : StoresNoSecret reg text d ↔ TitleClear reg text fileStem ∧
      CutsProtect reg config text := by
    rw [storesNoSecret_iff h, titleClear_iff, and_comm]
  exact ⟨fun htitle hcuts => hiff.2 ⟨htitle, hcuts.protect hre⟩, cutsApart_of_one, hiff⟩

/-! ### A pattern for one string -/

namespace InternalId

/-- The successive places of `needle` in the text from position `i` on, where the first `skip`
characters are taken. -/
def places (needle : List Char) : List Char → ℕ → ℕ → List RegexMatch
  | [], _, _ => []
  | _ :: rest, i, skip + 1 => places needle rest (i + 1) skip
  | c :: rest, i, 0 =>
    if needle.isPrefixOf (c :: rest) then
      ⟨i, i + needle.length, [some (i, i + needle.length)]⟩ :: places needle rest (i + 1)
        (needle.length - 1)
    else places needle rest (i + 1) 0

/-- A custom pattern whose regex is the string itself. -/
def pattern : RedactionPattern :=
  { name := "internal_id"
    regex := ⟨fun cs => places "INT-123456".toList cs 0 0, fun replacement => [.literal replacement.toList]⟩
    replacement := "[REDACTED:internal_id]"
    enabled := true
    kind := .literal }

def registry : RedactionRegistry := ⟨[pattern], true⟩

def config (target overlap : Fin 1000) : ChunkConfig := ⟨target, overlap, by omega, by omega⟩

/-- A secret is the string that the pattern is for. -/
theorem slice_eq_of_secret {text : List Char} {a b : ℕ} (h : Secret registry text a b) :
    ∃ r ∈ pattern.hits text, slice text a b = slice text r.1 r.2 := by
  obtain ⟨-, -, ⟨before, p, after, hactive, r, hr, heq⟩, -⟩ := h
  have hactive' : [pattern] = before ++ p :: after := hactive
  cases before with
  | nil =>
    obtain ⟨rfl, -⟩ := List.cons.inj hactive'
    have hfst : (mark 0 text).map Prod.fst = text := map_char_mark 0 text
    have hmark : redactedBy [] text = mark 0 text := rfl
    rw [hmark, hfst] at hr
    rw [hmark] at heq
    refine ⟨r, hr, ?_⟩
    have hmap := congrArg (List.map Prod.fst) heq
    rw [map_slice, hfst] at hmap
    exact (hmap.trans (map_char_mark a _)).symm
  | cons q before => simp at hactive'

theorem mem_places {needle cs : List Char} {i skip : ℕ} {m : RegexMatch}
    (h : m ∈ places needle cs i skip) :
    m.start ≤ m.stop ∧ m.stop ≤ i + cs.length ∧ m.groups = [some (m.start, m.stop)] := by
  induction cs generalizing i skip with
  | nil => cases h
  | cons c rest ih =>
    have hnext {skip : ℕ} (h : m ∈ places needle rest (i + 1) skip) :
        m.start ≤ m.stop ∧ m.stop ≤ i + (c :: rest).length ∧
        m.groups = [some (m.start, m.stop)] := by
      obtain ⟨hle, hstop, hgroups⟩ := ih h
      rw [List.length_cons]
      exact ⟨hle, by omega, hgroups⟩
    cases skip with
    | succ skip => exact hnext h
    | zero =>
      rw [places] at h
      split at h
      · next hprefix =>
        rcases List.mem_cons.1 h with rfl | h
        · have hlen := (List.isPrefixOf_iff_prefix.1 hprefix).length_le
          exact ⟨Nat.le_add_right _ _, Nat.add_le_add_left hlen i, rfl⟩
        · exact hnext h
      · exact hnext h

theorem within : ∀ p ∈ registry.active, p.regex.Within := by
  intro p hp cs m hm
  obtain rfl := List.mem_singleton.1 hp
  obtain ⟨hle, hstop, hgroups⟩ := mem_places hm
  rw [Nat.zero_add] at hstop
  refine ⟨hle, hstop, fun g hg r hr => ?_⟩
  rw [hgroups, List.mem_singleton] at hg
  obtain rfl := Option.some.inj (hr.symm.trans hg)
  exact hstop

def twoChunks : List Char := "This comes before. See INT-123456 now.".toList

end InternalId

/-- A text of two chunks with the string in the second. -/
theorem ingest_protects_iff_twoChunks : ∃ d,
    ingestDocument marked InternalId.registry (InternalId.config 5 0) (mark 0 InternalId.twoChunks)
    (some "notes".toList) =
      .ok d ∧ StoresNoSecret InternalId.registry InternalId.twoChunks d := by
  have hwindows : chunkWindows (InternalId.config 5 0) InternalId.twoChunks =
      [(0, 18), (18, 37), (37, 38)] := by
    decide +kernel
  have hdoc : ingestDocument marked InternalId.registry (InternalId.config 5 0)
      (mark 0 InternalId.twoChunks) (some "notes".toList) =
      .ok (markedDocument InternalId.registry (InternalId.config 5 0)
        InternalId.twoChunks (some "notes".toList)) :=
    ingestDocument_eq_ok.2 ⟨by rw [hwindows]; rfl, rfl⟩
  refine ⟨_, hdoc, ?_⟩
  refine ((ingest_protects_iff InternalId.registry (InternalId.config 5 0)
    InternalId.twoChunks (some "notes".toList)
    InternalId.within).2 _ hdoc).1 (fun a b hs => ?_) fun a b hs w hw _ _ => ?_
  · obtain ⟨r, hr, heq⟩ := InternalId.slice_eq_of_secret hs
    have hhits : InternalId.pattern.hits InternalId.twoChunks = [(23, 33)] := by decide +kernel
    rw [hhits] at hr
    obtain rfl := List.mem_singleton.1 hr
    have hlines : ∀ l ∈ ((splitInclusive InternalId.twoChunks).map stripLineEnd).take 64,
        heading l = none := by
      decide +kernel
    refine ⟨fun before line after title hsplit _ htitle => ?_, fun _ => ?_⟩
    · rw [hlines line (hsplit ▸ List.mem_append_right _ List.mem_cons_self)] at htitle
      cases htitle
    · rw [heq]
      decide +kernel
  · rw [hwindows, List.mem_cons, List.mem_cons, List.mem_singleton] at hw
    obtain rfl | rfl | rfl := hw
    · exact ⟨fun hpos => absurd hpos (Nat.lt_irrefl 0), fun _ => by decide +kernel⟩
    · exact ⟨fun _ => by decide +kernel, fun _ => by decide +kernel⟩
    · exact ⟨fun _ => by decide +kernel, fun hlt => absurd hlt (by decide +kernel)⟩

/-- A heading is stored as it was parsed, and a string cut in four is stored in four chunks. -/
theorem rawTitle_cutSecret_stored :
    (∃ d, ingestDocument marked InternalId.registry (InternalId.config 500 50)
      (mark 0 "# INT-123456".toList)
      (some "notes".toList) = .ok d ∧
        ¬ StoresNoSecret InternalId.registry "# INT-123456".toList d) ∧
    ∃ d, ingestDocument marked InternalId.registry (InternalId.config 1 0)
    (mark 0 "INT-123456".toList)
      (some "notes".toList) = .ok d ∧
      ¬ StoresNoSecret InternalId.registry "INT-123456".toList d := by
  refine ⟨⟨_, rfl, fun h => ?_⟩, ⟨_, ingestDocument_eq_ok.2 ⟨by decide +kernel, rfl⟩, fun h => ?_⟩⟩
  · have hsecret : Secret InternalId.registry "# INT-123456".toList 2 12 := by
      refine ⟨by decide, by decide, ⟨[], InternalId.pattern, [], rfl, (2, 12), by decide +kernel, by decide +kernel⟩,
        2, le_rfl, by decide, ?_⟩
      show ¬ Shows _ _
      decide +kernel
    exact (h 2 12 hsecret).1 (by decide +kernel)
  · have hsecret : Secret InternalId.registry "INT-123456".toList 0 10 := by
      refine ⟨by decide, by decide, ⟨[], InternalId.pattern, [], rfl, (0, 10), by decide +kernel, by decide +kernel⟩,
        0, le_rfl, by decide, ?_⟩
      show ¬ Shows _ _
      decide +kernel
    obtain ⟨p, -, hp, hhidden⟩ := (h 0 10 hsecret).2
    have hshown :
        ∀ p < 10, ∃ spec ∈
        (markedDocument InternalId.registry (InternalId.config 1 0) "INT-123456".toList
        (some "notes".toList)).chunks, Shows spec.content p := by decide +kernel
    obtain ⟨spec, hspec, hshow⟩ := hshown p hp
    exact hhidden spec hspec hshow

end Solo
