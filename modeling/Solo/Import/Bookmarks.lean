import Solo.Import.Record
import Solo.Lib.Replace

/-!
# Bookmark files (`parse_bookmarks_html`)

The anchors of a browser's bookmark file, found with regular expressions and decoded by a chain of
replacements. The chain begins with `&amp;`, so what that leaves is decoded again, and the address
is put through the chain twice.
-/

namespace Solo

open Text Replace

namespace Import

structure BookmarkItem where
  title : List Char
  url : List Char
  folder : Option (List Char)
  addedAt : Option (List Char)
  deriving DecidableEq

def unescapeSteps : List (List Char × List Char) :=
  [("&amp;".toList, ['&']), ("&lt;".toList, ['<']), ("&gt;".toList, ['>']),
    ("&quot;".toList, ['"']), ("&#39;".toList, ['\'']), ("&apos;".toList, ['\''])]

def htmlUnescape (value : List Char) : List Char := chain unescapeSteps value

/-! ### The regular expressions -/

def isA (c : Char) : Bool := c = 'a' || c = 'A'

/-- What stands before the first `>`, and what after it. -/
def untilClose : List Char → Option (List Char × List Char)
  | [] => none
  | c :: cs => if c = '>' then some ([], cs) else (untilClose cs).map fun x => (c :: x.1, x.2)

/-- `</a>`, in either case. -/
def endTag? : List Char → Bool
  | '<' :: '/' :: a :: '>' :: _ => isA a
  | _ => false

/-- What stands before the first `</a>`, and what after it. -/
def untilEndTag : List Char → Option (List Char × List Char)
  | [] => none
  | c :: cs => if endTag? (c :: cs) then some ([], (c :: cs).drop 4)
    else (untilEndTag cs).map fun x => (c :: x.1, x.2)

/-- `<a\s+([^>]*)>(.*?)</a>` at the front of a text: both groups, and what follows. -/
def matchAnchor? : List Char → Option (List Char × List Char × List Char)
  | '<' :: a :: w :: cs =>
    if isA a && isWhitespace w then do
      let (attrs, cs) ← untilClose (cs.dropWhile isWhitespace)
      let (body, rest) ← untilEndTag cs
      return (attrs, body, rest)
    else none
  | _ => none

/-- `captures_iter`: the anchors from left to right; the first argument is what is left of the one
that was found. -/
def anchors : ℕ → List Char → List (List Char × List Char)
  | _, [] => []
  | skip + 1, _ :: cs => anchors skip cs
  | 0, c :: cs =>
    match matchAnchor? (c :: cs) with
    | some (attrs, body, rest) => (attrs, body) :: anchors (cs.length - rest.length) cs
    | none => anchors 0 cs

/-- A value in quotes, at the front of a text. -/
def matchQuoted? (q : Char) : List Char → Option (List Char)
  | [] => none
  | c :: cs => if c = q && cs.any (· = q) then some (cs.takeWhile (· ≠ q)) else none

/-- `"([^"]*)"|'([^']*)'|([^\s>]+)` at the front of a text: the group that takes part. -/
def matchValue? (cs : List Char) : Option (List Char) :=
  let bare := cs.takeWhile fun c => !isWhitespace c && c ≠ '>'
  (matchQuoted? '"' cs).or ((matchQuoted? '\'' cs).or (if bare.isEmpty then none else some bare))

/-- A name in either case, at the front of a text, and what follows it. -/
def matchName? (name : String) (cs : List Char) : Option (List Char) :=
  if toAsciiLowercase (cs.take name.toList.length) =
    name.toList then some (cs.drop name.toList.length) else none

/-- `name\s*=\s*(?:…)` at the front of a text. -/
def matchAttribute? (name : String) (cs : List Char) : Option (List Char) := do
  let cs ← matchName? name cs
  let cs := cs.dropWhile isWhitespace
  if cs.head? = some '=' then matchValue? (cs.tail.dropWhile isWhitespace) else none

/-- The first attribute of that name that begins at a word boundary; `isWord` is `\w`. -/
def findAttribute (isWord : Char → Bool) (name : String) : Option Char → List Char →
    Option (List Char)
  | _, [] => none
  | before, c :: cs =>
    if before.all fun b => !isWord b then (matchAttribute? name (c :: cs)).or
      (findAttribute isWord name (some c) cs)
    else findAttribute isWord name (some c) cs

/-- `<[^>]+>` replaced by nothing. -/
def stripTags : ℕ → List Char → List Char
  | _, [] => []
  | skip + 1, _ :: cs => stripTags skip cs
  | 0, c :: cs =>
    match if c = '<' then untilClose cs else none with
    | some (x :: tag, _) => stripTags (x :: tag).length.succ cs
    | _ => c :: stripTags 0 cs

/-! ### The importer -/

/-- `capture_first`. -/
def captureFirst (captured : List Char) : List Char := htmlUnescape captured

/-- The bookmark of an anchor, unless it has no address. -/
def bookmarkOf (isWord : Char → Bool) (anchor : List Char × List Char) : Option BookmarkItem :=
  let href := ((findAttribute isWord "href" none anchor.1).map captureFirst).getD []
  if (trimList href).isEmpty then none
  else
    let title := htmlUnescape (trimList (stripTags 0 anchor.2))
    some
      { title := if title.isEmpty then href else title
        url := htmlUnescape href
        folder := none
        addedAt := (findAttribute isWord "add_date" none anchor.1).map captureFirst }

def parseBookmarksHtml (isWord : Char → Bool) (raw : List Char) : List BookmarkItem :=
  (anchors 0 raw).filterMap (bookmarkOf isWord)

/-- `stableHash` is the hexadecimal SHA-256. -/
def bookmarkRecord (stableHash : List Char → List Char) (bookmark : BookmarkItem) : ImportRecord :=
  let title := cleanTitle bookmark.title
  let sourceId := "bookmark:".toList ++ stableHash bookmark.url
  let body := "# ".toList ++ title ++ "\n\n".toList
  let body := pushMetadata body "Source" "Browser bookmarks".toList
  let body := pushMetadata body "Source ID" sourceId
  let body := pushMetadata body "URL" bookmark.url
  let body := bookmark.folder.elim body (pushMetadata body "Folder")
  let body := bookmark.addedAt.elim body (pushMetadata body "Added")
  { sourceId, title
    createdAt := bookmark.addedAt
    updatedAt := none
    body := body ++ "\nBookmark imported as metadata only; Solo did not crawl the page.\n".toList }

/-- The scan of the bookmarks of a file. -/
def scanBookmarks (stableHash : List Char → List Char) (bookmarks : List BookmarkItem) :
    SchemaImportScan :=
  let kept := bookmarks.filter fun b => !(trimList b.url).isEmpty
  { recordsScanned := bookmarks.length
    filteredRecords := 0
    skippedRecords := bookmarks.length - kept.length
    records := kept.map (bookmarkRecord stableHash) }

/-! ### Written with entities -/

/-- The entities of `<`, `>`, `"` and `'`; the last one has two. -/
def entityTable (numeric : Bool) : List (Char × List Char) :=
  [('<', "&lt;".toList), ('>', "&gt;".toList), ('"', "&quot;".toList),
    ('\'', if numeric then "&#39;".toList else "&apos;".toList)]

/-- `&`, `<`, `>`, `"` and `'` replaced by their entities. -/
def htmlEscape (numeric : Bool) (s : List Char) : List Char :=
  escape (('&', "&amp;".toList) :: entityTable numeric) s

/-- The chain without its first step. -/
def laterSteps : List (List Char × List Char) := unescapeSteps.tail

theorem isEntity_step {step : List Char × List Char} (h : step ∈ unescapeSteps) :
    IsEntity step.1 := by
  simp only [unescapeSteps, List.mem_cons, List.not_mem_nil, or_false] at h
  rcases h with rfl | rfl | rfl | rfl | rfl | rfl
  · exact ⟨"amp".toList, by decide, by decide, by decide⟩
  · exact ⟨"lt".toList, by decide, by decide, by decide⟩
  · exact ⟨"gt".toList, by decide, by decide, by decide⟩
  · exact ⟨"quot".toList, by decide, by decide, by decide⟩
  · exact ⟨"#39".toList, by decide, by decide, by decide⟩
  · exact ⟨"apos".toList, by decide, by decide, by decide⟩

theorem shortening_unescapeSteps : Shortening unescapeSteps := by
  have hshort : ∀ step ∈ unescapeSteps, step.2.length < step.1.length := by decide
  exact fun step h => ⟨(isEntity_step h).ne_nil, hshort step h⟩

theorem shortening_laterSteps : Shortening laterSteps :=
  fun step h => shortening_unescapeSteps step (List.mem_of_mem_tail h)

theorem entities_entityTable (numeric : Bool) : Entities (entityTable numeric) := by
  have hentity : ∀ x ∈ entityTable numeric, ∃ step ∈ unescapeSteps, x.2 = step.1 := by
    cases numeric <;> decide
  constructor
  case entity =>
    intro x hx
    obtain ⟨step, hstep, heq⟩ := hentity x hx
    exact heq ▸ isEntity_step hstep
  case plain => cases numeric <;> decide
  case chars => cases numeric <;> decide
  case entities => cases numeric <;> decide

/-- Decoding what was written with entities leaves it to the later steps to decode the text
itself. -/
theorem htmlUnescape_htmlEscape (numeric : Bool) (s : List Char) :
    htmlUnescape (htmlEscape numeric s) = chain laterSteps s := by
  have hall : Entities (entityTable numeric) := entities_entityTable numeric
  have hkeys : ∀ x ∈ entityTable numeric, x.1 ≠ '&' := by cases numeric <;> decide
  have hamp : replace "&amp;".toList ['&'] (htmlEscape numeric s) = escape (entityTable numeric)
      s :=
    replace_escape_amp ⟨"amp".toList, by decide, by decide, by decide⟩
      hall.entity (by cases numeric <;> decide) (by cases numeric <;> decide) s
  have hlater (x : List Char) : chain laterSteps x = replace "&apos;".toList ['\'']
      (replace "&#39;".toList ['\'']
      (replace "&quot;".toList ['"'] (replace "&gt;".toList ['>'] (replace "&lt;".toList ['<'] x)))) := rfl
  have hunescape (x : List Char) :
      htmlUnescape x = chain laterSteps (replace "&amp;".toList ['&'] x) := rfl
  have hgt := hall.tail
  have hquot := hgt.tail
  have hapos := hquot.tail
  rw [hunescape, hamp, hlater, hlater, entityTable, replace_escape hall hkeys,
    replace_escape hgt fun x hx => hkeys x (List.mem_cons_of_mem _ hx),
    replace_escape hquot fun x hx => hkeys x (List.mem_cons_of_mem _ (List.mem_cons_of_mem _ hx))]
  have hlast : ∀ x ∈ [('\'', if numeric then "&#39;".toList else "&apos;".toList)], x.1 ≠ '&' :=
    fun x hx =>
      hkeys x (List.mem_cons_of_mem _ (List.mem_cons_of_mem _ (List.mem_cons_of_mem _ hx)))
  have hquote (x : List Char) : replace (if numeric then "&#39;".toList else "&apos;".toList) ['\'']
      (escape [('\'', if numeric then "&#39;".toList else "&apos;".toList)] x) =
        replace (if numeric then "&#39;".toList else "&apos;".toList) ['\''] x := by
    rw [replace_escape hapos hlast]
    exact escape_of_plain fun y hy => absurd hy List.not_mem_nil
  cases numeric with
  | true => exact congrArg (replace "&apos;".toList ['\'']) (hquote _)
  | false =>
    have hnum : IsEntity "&#39;".toList := ⟨"#39".toList, by decide, by decide, by decide⟩
    have hname : IsEntity "&apos;".toList := ⟨"apos".toList, by decide, by decide, by decide⟩
    -- the step for the other entity is taken first
    have hcomm :=
      replace_comm hnum hname (by decide) (q := '\'') (by decide) (by decide) (by decide)
    rw [hcomm, hcomm]
    exact congrArg (replace "&#39;".toList ['\'']) (hquote _)

/-! ### Bookmark files -/

/-- No anchor begins in the text. -/
def AnchorFree (text : List Char) : Prop :=
  ∀ a w, isA a = true → isWhitespace w = true → ¬ ['<', a, w] <:+: text

def opensAnchor : List Char → Bool
  | '<' :: a :: w :: _ => isA a && isWhitespace w
  | _ => false

theorem opensAnchor_eq_true {text : List Char} : opensAnchor text = true ↔
    ∃ a w, (isA a = true ∧ isWhitespace w = true) ∧ ['<', a, w] <+: text := by
  constructor
  · intro h
    unfold opensAnchor at h
    split at h
    · next a w rest => exact ⟨a, w, Bool.and_eq_true_iff.1 h, rest, rfl⟩
    · cases h
  · rintro ⟨a, w, haw, rest, rfl⟩
    exact Bool.and_eq_true_iff.2 haw

theorem anchorFree_iff {text : List Char} : AnchorFree text ↔
    ∀ t ∈ text.tails, opensAnchor t = false := by
  constructor
  · intro h t ht
    refine Bool.eq_false_iff.2 fun hopens => ?_
    obtain ⟨a, w, ⟨ha, hw⟩, hbegins⟩ := opensAnchor_eq_true.1 hopens
    exact h a w ha hw (hbegins.isInfix.trans ((List.mem_tails _ _).1 ht).isInfix)
  · intro h a w ha hw hin
    obtain ⟨t, hbegins, hends⟩ := List.infix_iff_prefix_suffix.1 hin
    exact Bool.eq_false_iff.1 (h t ((List.mem_tails _ _).2 hends))
      (opensAnchor_eq_true.2 ⟨a, w, ⟨ha, hw⟩, hbegins⟩)

instance (text : List Char) : Decidable (AnchorFree text) := decidable_of_iff _ anchorFree_iff.symm

/-- A bookmark in a file: what stands before it, its title and address, and its other attributes. -/
structure Entry where
  filler : List Char
  title : List Char
  url : List Char
  attrs : List Char
  free : AnchorFree filler
  noClose : '>' ∉ attrs

structure BookmarkFile where
  entries : List Entry
  footer : List Char
  free : AnchorFree footer

/-- The attributes of the anchor, with the address first. -/
def Entry.attributes (numeric : Bool) (e : Entry) : List Char :=
  "HREF=\"".toList ++ htmlEscape numeric e.url ++ '"' :: e.attrs

def Entry.render (numeric : Bool) (e : Entry) : List Char :=
  e.filler ++ "<A ".toList ++ e.attributes numeric ++ '>' :: htmlEscape numeric e.title ++
    "</A>".toList

def BookmarkFile.render (numeric : Bool) (file : BookmarkFile) : List Char :=
  file.entries.flatMap (Entry.render numeric) ++ file.footer

theorem matchAnchor?_eq_some {cs : List Char} (h : (matchAnchor? cs).isSome = true) :
    ∃ a w rest, cs = '<' :: a :: w :: rest ∧ isA a = true ∧ isWhitespace w = true := by
  unfold matchAnchor? at h
  split at h
  · rename_i a w rest
    by_cases hcond : (isA a && isWhitespace w) = true
    · exact ⟨a, w, rest, rfl, Bool.and_eq_true_iff.1 hcond⟩
    · rw [if_neg hcond] at h
      cases h
  · cases h

theorem anchors_filler {filler : List Char} (hfree : AnchorFree filler) {t : List Char}
    (ht : ∀ c ∈ t.head?, c = '<') : anchors 0 (filler ++ t) = anchors 0 t := by
  induction filler with
  | nil => rfl
  | cons c filler ih =>
    have hrest : AnchorFree filler :=
      fun a w ha hw hin => hfree a w ha hw (hin.trans (List.suffix_cons c filler).isInfix)
    have hnone : matchAnchor? (c :: (filler ++ t)) = none := by
      by_contra hsome
      obtain ⟨a, w, rest, heq, ha, hw⟩ := matchAnchor?_eq_some (Option.ne_none_iff_isSome.1 hsome)
      obtain ⟨rfl, htail⟩ := List.cons.inj heq
      -- the anchor lies in the filler, or runs into the `<` after it
      cases filler with
      | nil =>
        rw [List.nil_append] at htail
        have hhead := ht a (by rw [htail]; rfl)
        rw [hhead] at ha
        exact absurd ha (by decide)
      | cons x filler =>
        rw [List.cons_append] at htail
        obtain ⟨hx, htail⟩ := List.cons.inj htail
        cases filler with
        | nil =>
          rw [List.nil_append] at htail
          have hhead := ht w (by rw [htail]; rfl)
          rw [hhead] at hw
          exact absurd hw (by decide)
        | cons y filler =>
          rw [List.cons_append] at htail
          obtain ⟨hy, -⟩ := List.cons.inj htail
          exact hfree a w ha hw ⟨[], filler, by rw [hx, hy]; rfl⟩
    rw [List.cons_append, anchors, hnone]
    exact ih hrest

theorem anchors_skip (s t : List Char) : anchors s.length (s ++ t) = anchors 0 t := by
  induction s with
  | nil => rfl
  | cons c s ih => exact ih

theorem untilClose_append {s : List Char} (hs : '>' ∉ s) (t : List Char) :
    untilClose (s ++ '>' :: t) = some (s, t) := by
  induction s with
  | nil => rfl
  | cons c s ih =>
    rw [List.mem_cons, not_or] at hs
    rw [List.cons_append, untilClose, if_neg (Ne.symm hs.1), ih hs.2]
    rfl

theorem untilEndTag_append {s : List Char} (hs : '<' ∉ s) (t : List Char) :
    untilEndTag (s ++ "</A>".toList ++ t) = some (s, t) := by
  induction s with
  | nil => rfl
  | cons c s ih =>
    rw [List.mem_cons, not_or] at hs
    have hnone : endTag? (c :: (s ++ "</A>".toList ++ t)) = false := by
      unfold endTag?
      split
      · rename_i a rest heq
        exact absurd (List.cons.inj heq).1.symm hs.1
      · rfl
    rw [List.cons_append, List.cons_append, untilEndTag, hnone, if_neg Bool.false_ne_true, ih hs.2]
    rfl

/-- Written with entities, a text has no character of the table. -/
theorem not_mem_htmlEscape (numeric : Bool) (s : List Char) {c : Char}
    (hc : c = '<' ∨ c = '>' ∨ c = '"') : c ∉ htmlEscape numeric s := by
  intro hmem
  obtain ⟨x, -, hx⟩ := List.mem_flatMap.1 hmem
  have hkey : ∃ e, (c, e) ∈ entityTable numeric := by
    rcases hc with rfl | rfl | rfl
    · exact ⟨"&lt;".toList, List.mem_cons_self⟩
    · exact ⟨"&gt;".toList, List.mem_cons_of_mem _ List.mem_cons_self⟩
    · exact ⟨"&quot;".toList, List.mem_cons_of_mem _ (List.mem_cons_of_mem _ List.mem_cons_self)⟩
  obtain ⟨e, he⟩ := hkey
  rcases escapeChar_cases (('&', "&amp;".toList) :: entityTable numeric)
    x with ⟨hplain, hnone⟩ | hentity
  · rw [hplain, List.mem_singleton] at hx
    exact hnone _ (List.mem_cons_of_mem _ he) hx
  · rcases List.mem_cons.1 hentity with heq | hentity
    · rw [(Prod.mk.inj heq).2] at hx
      rcases hc with rfl | rfl | rfl <;> exact absurd hx (by decide)
    · exact (entities_entityTable numeric).plain _ he _ hentity hx

theorem not_mem_attributes (numeric : Bool) (e : Entry) : '>' ∉ e.attributes numeric := by
  unfold Entry.attributes
  rw [List.mem_append, List.mem_append, List.mem_cons, not_or, not_or, not_or]
  exact ⟨⟨by decide, not_mem_htmlEscape numeric e.url (.inr (.inl rfl))⟩, by decide, e.noClose⟩

theorem anchors_render (numeric : Bool) (e : Entry) (t : List Char) :
    anchors 0 (e.render numeric ++ t) = (e.attributes numeric, htmlEscape numeric e.title) ::
    anchors 0 t := by
  obtain ⟨s, hs⟩ :
      ∃ s, s = 'A' :: ' ' ::
      (e.attributes numeric ++ '>' :: (htmlEscape numeric e.title ++ "</A>".toList)) :=
    ⟨_, rfl⟩
  have hrender : e.render numeric ++ t = e.filler ++ '<' :: (s ++ t) := by
    rw [hs, Entry.render]
    simp only [List.append_assoc, List.cons_append]
    rfl
  have hhead : ∀ c ∈ ('<' :: (s ++ t)).head?, c = '<' := fun c hc => by
    rw [List.head?_cons, Option.mem_def] at hc
    exact (Option.some.inj hc).symm
  have hmatch :
      matchAnchor? ('<' :: (s ++ t)) =
      some (e.attributes numeric, htmlEscape numeric e.title, t) := by
    have hspace :
        (e.attributes numeric ++
          '>' :: (htmlEscape numeric e.title ++ "</A>".toList ++ t)).dropWhile isWhitespace =
        e.attributes numeric ++ '>' :: (htmlEscape numeric e.title ++ "</A>".toList ++ t) := rfl
    have hshape : '<' :: (s ++ t) =
        '<' :: 'A' :: ' ' ::
        (e.attributes numeric ++ '>' :: (htmlEscape numeric e.title ++ "</A>".toList ++ t)) := by
      rw [hs]
      simp only [List.append_assoc, List.cons_append]
    rw [hshape, matchAnchor?, if_pos (by decide), hspace,
      untilClose_append (not_mem_attributes numeric e)]
    dsimp only [Option.bind_eq_bind, Option.bind_some, Option.pure_def]
    rw [untilEndTag_append (not_mem_htmlEscape numeric e.title (.inl rfl))]
    rfl
  rw [hrender, anchors_filler e.free hhead, anchors, hmatch]
  dsimp only
  rw [List.length_append, Nat.add_sub_cancel, anchors_skip]

theorem anchors_file (numeric : Bool) (file : BookmarkFile) :
    anchors 0 (file.render numeric) = file.entries.map fun e =>
    (e.attributes numeric, htmlEscape numeric e.title) := by
  obtain ⟨entries, footer, hfree⟩ := file
  unfold BookmarkFile.render
  dsimp only
  induction entries with
  | nil =>
    have hfooter := anchors_filler hfree (t := []) (fun c hc => by cases hc)
    rw [List.append_nil] at hfooter
    exact hfooter
  | cons e entries ih =>
    rw [List.flatMap_cons, List.append_assoc, anchors_render, ih, List.map_cons]

theorem matchQuoted?_cons {q : Char} {s : List Char} (hs : q ∉ s) (t : List Char) :
    matchQuoted? q (q :: (s ++ q :: t)) = some s := by
  have hbefore : ∀ c ∈ s, decide (c ≠ q) = true := by
    intro c hc
    rw [decide_eq_true_eq]
    rintro rfl
    exact hs hc
  have hany : (s ++ q :: t).any (· = q) = true :=
    List.any_eq_true.2 ⟨q, List.mem_append_right _ List.mem_cons_self, decide_eq_true rfl⟩
  have htake : (s ++ q :: t).takeWhile (· ≠ q) = s := by
    rw [List.takeWhile_append_of_pos hbefore, List.takeWhile_cons_of_neg (by simp), List.append_nil]
  rw [matchQuoted?, hany, htake, if_pos (by simp)]

theorem findAttribute_href (isWord : Char → Bool) (numeric : Bool) (e : Entry) :
    findAttribute isWord "href" none (e.attributes numeric) = some (htmlEscape numeric e.url) := by
  have hvalue : matchValue? ('"' :: (htmlEscape numeric e.url ++ '"' :: e.attrs)) =
      some (htmlEscape numeric e.url) := by
    unfold matchValue?
    rw [matchQuoted?_cons (not_mem_htmlEscape numeric e.url (.inr (.inr rfl)))]
    rfl
  have hshape :
      e.attributes numeric = 'H' ::
      ("REF=\"".toList ++ htmlEscape numeric e.url ++ '"' :: e.attrs) := rfl
  have hmatch : matchAttribute? "href" (e.attributes numeric) =
      some (htmlEscape numeric e.url) := by
    have hequals : e.attributes numeric = "HREF".toList ++
        '=' :: '"' :: (htmlEscape numeric e.url ++ '"' :: e.attrs) := by
      unfold Entry.attributes
      simp only [List.append_assoc]
      rfl
    rw [hequals]
    exact hvalue
  rw [hshape, findAttribute, ← hshape, hmatch]
  rfl

theorem stripTags_of_plain {s : List Char} (hs : '<' ∉ s) : stripTags 0 s = s := by
  induction s with
  | nil => rfl
  | cons c s ih =>
    rw [List.mem_cons, not_or] at hs
    rw [stripTags, if_neg (Ne.symm hs.1)]
    exact congrArg (c :: ·) (ih hs.2)

/-! ### White space at the ends -/

theorem dropWhile_flatMap {f : Char → List Char} (hspace : ∀ c, isWhitespace c = true → f c = [c])
    (hplain : ∀ c, isWhitespace c = false → ∃ d rest, f c = d :: rest ∧ isWhitespace d = false)
    (s : List Char) :
    (s.flatMap f).dropWhile isWhitespace = (s.dropWhile isWhitespace).flatMap f := by
  induction s with
  | nil => rfl
  | cons c s ih =>
    rw [List.flatMap_cons]
    cases hc : isWhitespace c with
    | true =>
      rw [hspace c hc, List.singleton_append, List.dropWhile_cons_of_pos hc,
        List.dropWhile_cons_of_pos hc, ih]
    | false =>
      obtain ⟨d, rest, hf, hd⟩ := hplain c hc
      have hdrop : (c :: s).dropWhile isWhitespace = c :: s :=
        List.dropWhile_cons_of_neg (by simp [hc])
      rw [hdrop, List.flatMap_cons, hf, List.cons_append]
      exact List.dropWhile_cons_of_neg (by simp [hd])

theorem reverse_flatMap (f : Char → List Char) (s : List Char) :
    (s.flatMap f).reverse = s.reverse.flatMap fun c => (f c).reverse := by
  induction s with
  | nil => rfl
  | cons c s ih =>
    rw [List.flatMap_cons, List.reverse_append, ih, List.reverse_cons, List.flatMap_append,
      List.flatMap_singleton]

theorem trimList_htmlEscape (numeric : Bool) (s : List Char) :
    trimList (htmlEscape numeric s) = htmlEscape numeric (trimList s) := by
  have htable : ∀ x ∈ ('&', "&amp;".toList) :: entityTable numeric, IsEntity x.2 ∧
      isWhitespace x.1 = false := by
    intro x hx
    rcases List.mem_cons.1 hx with rfl | hx
    · exact ⟨⟨"amp".toList, by decide, by decide, by decide⟩, by decide⟩
    · have hchars : ∀ x ∈ entityTable numeric, isWhitespace x.1 = false := by
        cases numeric <;> decide
      exact ⟨(entities_entityTable numeric).entity x hx, hchars x hx⟩
  have hspace : ∀ c, isWhitespace c = true →
      escapeChar (('&', "&amp;".toList) :: entityTable numeric) c = [c] := by
    intro c hc
    rcases escapeChar_cases (('&', "&amp;".toList) :: entityTable numeric) c with ⟨hplain, -⟩ | hmem
    · exact hplain
    · have hnot := (htable _ hmem).2
      rw [hc] at hnot
      cases hnot
  -- the first and the last character that stand for one that is no white space
  have hplain : ∀ c, isWhitespace c = false → ∃ d e rest rest',
      escapeChar (('&', "&amp;".toList) :: entityTable numeric) c = d :: rest ∧
      isWhitespace d = false ∧
      (escapeChar (('&', "&amp;".toList) :: entityTable numeric) c).reverse = e :: rest' ∧
      isWhitespace e = false := by
    intro c hc
    rcases escapeChar_cases (('&', "&amp;".toList) :: entityTable numeric) c with ⟨hself, -⟩ | hmem
    · exact ⟨c, c, [], [], hself, hc, by rw [hself]; rfl, hc⟩
    · obtain ⟨name, hname, -, -⟩ := (htable _ hmem).1
      dsimp only at hname
      refine ⟨'&', ';', name ++ [';'], (name.reverse ++ ['&']), hname, by decide, ?_, by decide⟩
      rw [hname, List.reverse_cons, List.reverse_append]
      rfl
  unfold trimList trimMatches htmlEscape escape
  rw [dropWhile_flatMap hspace fun c hc => by
    obtain ⟨d, -, rest, -, h, hd, -, -⟩ := hplain c hc
    exact ⟨d, rest, h, hd⟩]
  rw [reverse_flatMap, dropWhile_flatMap (fun c hc => by rw [hspace c hc]; rfl) fun c hc => by
    obtain ⟨-, e, -, rest, -, -, h, he⟩ := hplain c hc
    exact ⟨e, rest, h, he⟩]
  rw [reverse_flatMap]
  simp only [List.reverse_reverse]

/-! ### What is imported -/

/-- None of the entities that the later steps decode. -/
def PlainText (s : List Char) : Prop := ∀ step ∈ laterSteps, ¬ step.1 <:+: s

/-- No entity at all, and not blank. -/
def PlainUrl (url : List Char) : Prop :=
  (∀ step ∈ unescapeSteps, ¬ step.1 <:+: url) ∧ ∃ c ∈ url, isWhitespace c = false

/-- The address of an entry is what the chain makes of it in two rounds, the first without
`&amp;`. -/
theorem bookmarkOf_entry (isWord : Char → Bool) (numeric : Bool) (e : Entry) :
    bookmarkOf isWord (e.attributes numeric, htmlEscape numeric e.title) =
      if (trimList (chain laterSteps e.url)).isEmpty then none
      else some
        { title := if (chain laterSteps (trimList e.title)).isEmpty then chain laterSteps e.url
            else chain laterSteps (trimList e.title)
          url := htmlUnescape (chain laterSteps e.url)
          folder := none
          addedAt := (findAttribute isWord "add_date" none (e.attributes numeric)).map captureFirst } := by
  have htitle : htmlUnescape (trimList (stripTags 0 (htmlEscape numeric e.title))) =
      chain laterSteps (trimList e.title) := by
    rw [stripTags_of_plain (not_mem_htmlEscape numeric e.title (.inl rfl)), trimList_htmlEscape,
      htmlUnescape_htmlEscape]
  have hhref : ((findAttribute isWord "href" none (e.attributes numeric)).map captureFirst).getD
      [] = chain laterSteps e.url := by
    rw [findAttribute_href]
    exact htmlUnescape_htmlEscape numeric e.url
  unfold bookmarkOf
  dsimp only
  rw [htitle, hhref]

/-- Which titles come through: cleaned ones without entities. -/
theorem title_iff (href t : List Char) :
    cleanTitle
    (if (chain laterSteps (trimList t)).isEmpty then href else chain laterSteps (trimList t)) = t ↔
      PlainText t ∧ cleanTitle t = t := by
  have hnonempty : ∀ step ∈ laterSteps, step.1 ≠ [] ∧ step.2 ≠ [] := by decide
  constructor
  · intro h
    obtain ⟨c, hc, hplain⟩ := h ▸ cleanTitle_not_blank _
    have hdecoded : (chain laterSteps (trimList t)).isEmpty = false := by
      by_contra hempty
      rw [Bool.not_eq_false, List.isEmpty_iff] at hempty
      have hblank := trimList_eq_nil.1 (chain_eq_nil hnonempty hempty) c hc
      rw [hplain] at hblank
      cases hblank
    rw [hdecoded, if_neg Bool.false_ne_true] at h
    by_cases hwords : splitWhitespace (chain laterSteps (trimList t)) = []
    · have huntitled : t = "Untitled".toList := by
        rw [← h]
        unfold cleanTitle
        rw [hwords]
        rfl
      have hkept : PlainText "Untitled".toList := by
        unfold PlainText
        decide
      rw [huntitled]
      exact ⟨hkept, by decide +kernel⟩
    · -- nothing has become shorter
      have h₁ := length_cleanTitle_le hwords
      rw [h] at h₁
      have h₂ := length_chain_le shortening_laterSteps (trimList t)
      have h₃ := (isInfix_trimList t).length_le
      have htrim : trimList t = t :=
        (isInfix_trimList t).eq_of_length (Nat.le_antisymm h₃ (h₁.trans h₂))
      rw [htrim] at h₁ h
      have hsame : chain laterSteps t = t := chain_eq_of_length shortening_laterSteps h₁
      rw [hsame] at h
      exact ⟨(chain_eq_self_iff shortening_laterSteps).1 hsame, h⟩
  · rintro ⟨hplain, hclean⟩
    have hsame : chain laterSteps (trimList t) = trimList t :=
      (chain_eq_self_iff shortening_laterSteps).2 fun step hstep hin =>
        hplain step hstep (hin.trans (isInfix_trimList t))
    obtain ⟨c, hc, hnonblank⟩ := hclean ▸ cleanTitle_not_blank t
    have hnotEmpty : ¬ (trimList t).isEmpty = true := fun hempty => by
      have hblank := trimList_eq_nil.1 (List.isEmpty_iff.1 hempty) c hc
      rw [hnonblank] at hblank
      cases hblank
    rw [hsame, if_neg hnotEmpty, cleanTitle_trimList, hclean]

theorem not_blank_iff (s : List Char) : ¬ (trimList s).isEmpty = true ↔
    ∃ c ∈ s, isWhitespace c = false := by
  rw [List.isEmpty_iff, trimList_eq_nil]
  push Not
  exact exists_congr fun c => and_congr_right fun _ => Bool.eq_false_iff.symm

/-- Which addresses come through: those without any entity. -/
theorem url_iff (url : List Char) :
    (¬ (trimList (chain laterSteps url)).isEmpty = true ∧
      htmlUnescape (chain laterSteps url) = url) ↔ PlainUrl url := by
  have hboth : htmlUnescape (chain laterSteps url) = chain (laterSteps ++ unescapeSteps) url :=
    (chain_append _ _ _).symm
  have hshort : Shortening (laterSteps ++ unescapeSteps) := fun step hstep =>
    (List.mem_append.1 hstep).elim (shortening_laterSteps step) (shortening_unescapeSteps step)
  have hnone : (∀ step ∈ laterSteps ++ unescapeSteps, ¬ step.1 <:+: url) ↔
      ∀ step ∈ unescapeSteps, ¬ step.1 <:+: url :=
    ⟨fun h step hstep => h step (List.mem_append_right _ hstep), fun h step hstep =>
      h step ((List.mem_append.1 hstep).elim List.mem_of_mem_tail id)⟩
  rw [hboth, chain_eq_self_iff hshort, hnone, not_blank_iff]
  constructor
  · rintro ⟨hnonblank, hplain⟩
    have hsame : chain laterSteps url = url :=
      (chain_eq_self_iff shortening_laterSteps).2 fun step hstep =>
        hplain step (List.mem_of_mem_tail hstep)
    exact ⟨hplain, hsame ▸ hnonblank⟩
  · rintro ⟨hplain, hnonblank⟩
    have hsame : chain laterSteps url = url :=
      (chain_eq_self_iff shortening_laterSteps).2 fun step hstep =>
        hplain step (List.mem_of_mem_tail hstep)
    exact ⟨hsame.symm ▸ hnonblank, hplain⟩

/-- The records of a bookmark file have the titles and the addresses that were written to it. -/
def ImportsExactly (isWord : Char → Bool) (stableHash : List Char → List Char) (numeric : Bool)
    (file : BookmarkFile) :
    Prop :=
  (parseBookmarksHtml isWord (file.render numeric)).map (·.url) = file.entries.map (·.url) ∧
    (scanBookmarks stableHash (parseBookmarksHtml isWord (file.render numeric))).records.map
    (·.title) =
      file.entries.map (·.title)

theorem importsExactly_iff (isWord : Char → Bool) (stableHash : List Char → List Char)
    (numeric : Bool) (file : BookmarkFile) : ImportsExactly isWord stableHash numeric file ↔
      ∀ e ∈ file.entries, (PlainText e.title ∧ cleanTitle e.title = e.title) ∧ PlainUrl e.url := by
  obtain ⟨item, hitem⟩ : ∃ item : Entry → Option BookmarkItem,
      ∀ e, item e = bookmarkOf isWord (e.attributes numeric, htmlEscape numeric e.title) :=
      ⟨_, fun _ => rfl⟩
  have hparsed : parseBookmarksHtml isWord (file.render numeric) = file.entries.filterMap item := by
    unfold parseBookmarksHtml
    rw [anchors_file, List.filterMap_map]
    exact List.filterMap_congr fun e _ => (hitem e).symm
  have htitles (items : List BookmarkItem) :
      (scanBookmarks stableHash items).records.map (·.title) =
      items.filterMap fun b => if (trimList b.url).isEmpty then none else some
      (cleanTitle b.title) := by
    unfold scanBookmarks
    dsimp only
    rw [List.map_map, ← List.filterMap_eq_map, List.filterMap_filter]
    refine List.filterMap_congr fun b _ => ?_
    cases (trimList b.url).isEmpty <;> rfl
  unfold ImportsExactly
  rw [htitles, hparsed, List.map_filterMap, List.filterMap_filterMap,
    List.filterMap_eq_map_iff_forall_eq_some,
    List.filterMap_eq_map_iff_forall_eq_some, ← forall₂_and]
  refine forall₂_congr fun e _ => ?_
  rw [hitem, bookmarkOf_entry, ← url_iff, ← title_iff (chain laterSteps e.url)]
  by_cases hempty : (trimList (chain laterSteps e.url)).isEmpty = true
  · rw [if_pos hempty]
    refine iff_of_false (fun h => ?_) fun h => h.2.1 hempty
    cases h.1
  · rw [if_neg hempty, Option.map_some, Option.bind_some, Option.some.injEq]
    dsimp only
    constructor
    · rintro ⟨hurl, htitle⟩
      by_cases hagain : (trimList (htmlUnescape (chain laterSteps e.url))).isEmpty = true
      · rw [if_pos hagain] at htitle
        cases htitle
      · rw [if_neg hagain] at htitle
        exact ⟨Option.some.inj htitle, hempty, hurl⟩
    · rintro ⟨htitle, -, hurl⟩
      have hkept : ¬ (trimList e.url).isEmpty = true :=
        (not_blank_iff _).2 ((url_iff e.url).1 ⟨hempty, hurl⟩).2
      rw [hurl, if_neg hkept]
      exact ⟨rfl, congrArg some htitle⟩

theorem anchorFree_header : AnchorFree "<H1>Bookmarks</H1>\n<DL><p>\n<DT>".toList := by
  decide +kernel

theorem anchorFree_between : AnchorFree "\n<DT>".toList := by decide +kernel

theorem anchorFree_footer : AnchorFree "\n</DL>".toList := by decide +kernel

theorem noClose_addDate : '>' ∉ " ADD_DATE=\"1\"".toList := by decide

/-- A file as browsers write it. -/
def savedFile : BookmarkFile where
  entries :=
    [⟨"<H1>Bookmarks</H1>\n<DL><p>\n<DT>".toList, "Q & A".toList,
      "https://solo.example/?q=a".toList,
        " ADD_DATE=\"1\"".toList, anchorFree_header, noClose_addDate⟩,
      ⟨"\n<DT>".toList, "it's <b>".toList, "https://solo.example/".toList, " ADD_DATE=\"1\"".toList,
        anchorFree_between, noClose_addDate⟩]
  footer := "\n</DL>".toList
  free := anchorFree_footer

theorem plain_of_not_mem {u : List Char} (h : '&' ∉ u) :
    ∀ step ∈ unescapeSteps, ¬ step.1 <:+: u := by
  have hamp : ∀ step ∈ unescapeSteps, '&' ∈ step.1 := by decide
  exact fun step hstep hin => h (hin.subset (hamp step hstep))

/-- Signs that are written as entities do no harm. -/
theorem importsExactly_savedFile (isWord : Char → Bool) (stableHash : List Char → List Char)
    (numeric : Bool) : ImportsExactly isWord stableHash numeric savedFile := by
  have htitles : ∀ e ∈ savedFile.entries,
      (∀ step ∈ laterSteps, ¬ step.1 <:+: e.title) ∧ cleanTitle e.title = e.title := by
    decide +kernel
  have hurls : ∀ e ∈ savedFile.entries, '&' ∉ e.url ∧ 'h' ∈ e.url := by decide +kernel
  exact (importsExactly_iff isWord stableHash numeric savedFile).2 fun e he =>
    ⟨htitles e he, plain_of_not_mem (hurls e he).1, 'h', (hurls e he).2, by decide⟩

end Import

/-- Decoding gives a text back exactly where it has none of the later entities in it, and a bookmark
file is imported exactly where its titles are such and clean, and its addresses have no entity in
them and are not blank. -/
theorem htmlUnescape_once (isWord : Char → Bool) (stableHash : List Char → List Char)
    (numeric : Bool) (s : List Char) (file : Import.BookmarkFile) :
    (Import.htmlUnescape (Import.htmlEscape numeric s) = s ↔ Import.PlainText s) ∧
    (Import.ImportsExactly isWord stableHash numeric file ↔
      ∀ e ∈ file.entries, (Import.PlainText e.title ∧ Import.cleanTitle e.title = e.title) ∧
        Import.PlainUrl e.url) := by
  refine ⟨?_, Import.importsExactly_iff isWord stableHash numeric file⟩
  rw [Import.htmlUnescape_htmlEscape]
  exact chain_eq_self_iff Import.shortening_laterSteps

/-! ### Texts about entities -/

/-- A title that mentions an entity, and an address with one in it. -/
theorem htmlUnescape_twice :
    ¬ ((∀ numeric s, Import.htmlUnescape (Import.htmlEscape numeric s) = s) ∧
      ∀ (isWord : Char → Bool) (stableHash : List Char → List Char) (numeric : Bool)
      (file : Import.BookmarkFile),
        Import.ImportsExactly isWord stableHash numeric file) := by
  intro h
  have hsame := h.1 true "&lt;".toList
  have hdecoded : Import.htmlUnescape (Import.htmlEscape true "&lt;".toList) = "<".toList := by
    decide +kernel
  rw [hdecoded] at hsame
  exact absurd hsame (by decide)

end Solo
