import Solo.Import.Bookmarks
import Solo.Import.Transcript

/-!
# Schema imports (`schema_import.rs`, `parse_schema_import`)

A conversation export or a bookmark file is scanned into records, and each record is written to a
file that is named after the slug of its title and twelve digits of the hash of its source id. The
counts of a scan always add up. Two records of one slug and one source id are written to one file,
such as two bookmarks of one address.
-/

namespace Solo

open Text Json

namespace Import

inductive SchemaImportSource where
  | chatGpt
  | claude
  | bookmarks
  deriving DecidableEq

def SchemaImportSource.commandName : SchemaImportSource → String
  | .chatGpt => "chatgpt"
  | .claude => "claude"
  | .bookmarks => "bookmarks"

def SchemaImportSource.displayName : SchemaImportSource → String
  | .chatGpt => "ChatGPT"
  | .claude => "Claude"
  | .bookmarks => "Bookmarks"

def matchesSchemaFilters (id title : List Char) (filters : List (List Char)) : Bool :=
  filters.isEmpty || filters.any fun filter =>
    let filter := toAsciiLowercase (trimList filter)
    !filter.isEmpty &&
    (toAsciiLowercase id = filter || contains (toAsciiLowercase title) (String.ofList filter))

/-! ### Conversations -/

section

variable {N : Type}

/-- What the importers of the two conversation exports look for. -/
structure ConversationFormat (N : Type) where
  source : SchemaImportSource
  idNames : List String
  titleNames : List String
  untitled : String
  createdNames : List String
  updatedNames : List String
  extractMessages : Json N → List (TranscriptMessage N)

def claudeFormat : ConversationFormat N where
  source := .claude
  idNames := ["uuid", "id"]
  titleNames := ["name", "title"]
  untitled := "Untitled Claude conversation"
  createdNames := ["created_at", "create_time"]
  updatedNames := ["updated_at", "update_time"]
  extractMessages := extractClaudeMessages

def conversationArray (value : Json N) : Option (List (Json N)) :=
  (asArray value).or ((value.get "conversations").bind asArray)

def stripJsonBom (raw : List Char) : List Char :=
  if raw.head? = some '\ufeff' then raw.tail else raw

variable (numText : N → List Char)

def chatgptFormat : ConversationFormat N where
  source := .chatGpt
  idNames := ["id", "uuid"]
  titleNames := ["title", "name"]
  untitled := "Untitled ChatGPT conversation"
  createdNames := ["create_time", "created_at"]
  updatedNames := ["update_time", "updated_at"]
  extractMessages := extractChatgptMessages numText

/-- A message of the transcript, after what stands before it. -/
def pushMessage (body : List Char) (message : TranscriptMessage N) : List Char :=
  let body := body ++ "### ".toList ++ message.role
  let body := (message.timeText numText).elim body fun createdAt => body ++ " (".toList ++
    createdAt ++ [')']
  body ++ "\n\n".toList ++ trimList message.text ++ "\n\n".toList

def transcriptRecord (source : SchemaImportSource) (id title : List Char)
    (createdAt updatedAt : Option (List Char))
    (messages : List (TranscriptMessage N)) : ImportRecord :=
  let sourceId := source.commandName.toList ++ ':' :: id
  let body := "# ".toList ++ title ++ "\n\n".toList
  let body := pushMetadata body "Source" source.displayName.toList
  let body := pushMetadata body "Source ID" sourceId
  let body := createdAt.elim body (pushMetadata body "Created")
  let body := updatedAt.elim body (pushMetadata body "Updated")
  { sourceId, title, createdAt, updatedAt,
    body := messages.foldl (pushMessage numText) (body ++ "\n## Transcript\n\n".toList) }

variable (stableHash : List Char → List Char) (format : ConversationFormat N)

def conversationId (conversation : Json N) : List Char :=
  (stringField conversation format.idNames).getD
    (stableHash (write numText escapeChar conversation))

def conversationTitle (conversation : Json N) : List Char :=
  ((stringField conversation format.titleNames).map cleanTitle).getD format.untitled.toList

def conversationRecord (conversation : Json N) : ImportRecord :=
  transcriptRecord numText format.source (conversationId numText stableHash format conversation)
    (conversationTitle format conversation) (stringField conversation format.createdNames)
    (stringField conversation format.updatedNames) (format.extractMessages conversation)

/-- One turn of the loop over the conversations. -/
def importConversation (filters : List (List Char)) (scan : SchemaImportScan)
    (conversation : Json N) : SchemaImportScan :=
  let scan := { scan with recordsScanned := scan.recordsScanned + 1 }
  if !matchesSchemaFilters (conversationId numText stableHash format conversation)
    (conversationTitle format conversation) filters
  then { scan with filteredRecords := scan.filteredRecords + 1 }
  else if (format.extractMessages conversation).isEmpty
    then { scan with skippedRecords := scan.skippedRecords + 1 }
  else { scan with records := scan.records ++ [conversationRecord numText stableHash format conversation] }

def SchemaImportScan.new : SchemaImportScan := ⟨0, 0, 0, []⟩

def importConversations (ofLexeme : List Char → Option N) (filters : List (List Char))
    (raw : List Char) : Option SchemaImportScan := do
  let value ← parse ofLexeme (stripJsonBom raw)
  let conversations ← conversationArray value
  return conversations.foldl (importConversation numText stableHash format filters) .new

end

/-! ### Bookmarks as JSON -/

section

variable {N : Type}

mutual

/-- `collect_bookmarks_json`: the bookmarks in a value, in the given folders. -/
def collectBookmarksJson (folders : List (List Char)) : Json N → List BookmarkItem
  | .arr items => collectItems folders items
  | .obj fields =>
    let value : Json N := .obj fields
    let title :=
      ((stringField value ["title", "name"]).map cleanTitle).getD "Untitled bookmark".toList
    let url := stringField value ["url", "uri"]
    let own := url.toList.map fun url =>
      { title, url
        folder := if folders.isEmpty then none else some (['/'].intercalate folders)
        addedAt := stringField value ["date_added", "dateAdded", "add_date"] }
    let hasChildren := ((value.get "children").bind asArray).isSome
    let folders :=
      if hasChildren && !(trimList title).isEmpty && url.isNone then folders ++ [title] else folders
    let others :=
      if (value.get "children").isNone && (value.get "roots").isNone &&
        url.isNone then collectFields folders fields else []
    own ++ collectField "children" folders fields ++ collectField "roots" folders fields ++ others
  | _ => []

def collectItems (folders : List (List Char)) : List (Json N) → List BookmarkItem
  | [] => []
  | v :: vs => collectBookmarksJson folders v ++ collectItems folders vs

def collectFields (folders : List (List Char)) : Fields N → List BookmarkItem
  | [] => []
  | (_, v) :: fields => collectBookmarksJson folders v ++ collectFields folders fields

/-- The bookmarks in one member of a map, if it has that member. -/
def collectField (name : String) (folders : List (List Char)) : Fields N → List BookmarkItem
  | [] => []
  | (key, v) :: fields => if key = name.toList then collectBookmarksJson folders v else collectField
    name folders fields

end

def parseBookmarksJson (value : Json N) : List BookmarkItem := collectBookmarksJson [] value

end

/-! ### Files -/

/-- `slugify_filename`, with what has been put out and whether that was a dash. -/
def slugifyFrom : List Char → List Char → Bool → List Char
  | [], out, _ => out
  | c :: cs, out, lastDash =>
    let (out, lastDash) :=
      if c.isAlphanum then (out ++ [c.toLower], false)
      else if !lastDash && !out.isEmpty then (out ++ ['-'], true)
      else (out, lastDash)
    if 48 ≤ out.length then out else slugifyFrom cs out lastDash

def slugifyFilename (value : List Char) : List Char :=
  let out := ((slugifyFrom value [] false).reverse.dropWhile (· = '-')).reverse
  if out.isEmpty then "import".toList else out

/-- The name in `materialized_schema_record_path`. -/
def materializedName (stableHash : List Char → List Char) (record : ImportRecord) : List Char :=
  slugifyFilename record.title ++ '-' :: ((stableHash record.sourceId).take 12 ++ ".md".toList)

section

variable {N : Type} (ofLexeme : List Char → Option N) (numText : N → List Char)
  (stableHash : List Char → List Char)

/-- `raw` is what was read of the file; `json` says whether a bookmark file is named so. -/
def parseSchemaImport (isWord : Char → Bool) (source : SchemaImportSource) (json : Bool)
    (raw : List Char) (filters : List (List Char)) : Option SchemaImportScan :=
  match source with
  | .chatGpt => importConversations numText stableHash (chatgptFormat numText) ofLexeme filters raw
  | .claude => importConversations numText stableHash claudeFormat ofLexeme filters raw
  | .bookmarks =>
    if json then
      (parse ofLexeme (stripJsonBom raw)).map fun value =>
        scanBookmarks stableHash (parseBookmarksJson value)
    else some (scanBookmarks stableHash (parseBookmarksHtml isWord raw))

/-- The conversations that become records. -/
def imported (format : ConversationFormat N) (filters : List (List Char)) (raw : List Char) :
    List (Json N) :=
  (((parse ofLexeme (stripJsonBom raw)).bind conversationArray).getD []).filter fun conversation =>
    matchesSchemaFilters (conversationId numText stableHash format conversation)
      (conversationTitle format conversation) filters &&
      !(format.extractMessages conversation).isEmpty

def formatOf (source : SchemaImportSource) : Option (ConversationFormat N) :=
  match source with
  | .chatGpt => some (chatgptFormat numText)
  | .claude => some claudeFormat
  | .bookmarks => none

/-! ### What an import keeps -/

variable {R : Type} [LE R] (value : N → R)

/-- The counts add up, every conversation that is neither filtered nor skipped has its record,
different records have different names, and transcripts are in the order of their numeric times. -/
structure Keeps (source : SchemaImportSource) (filters : List (List Char)) (raw : List Char)
    (scan : SchemaImportScan) : Prop where
  counts : scan.recordsScanned = scan.filteredRecords + scan.skippedRecords + scan.records.length
  records : ∀ format, formatOf numText source = some format → scan.records
    = (imported ofLexeme numText stableHash format filters raw).map
    (conversationRecord numText stableHash format)
  names : ∀ a ∈ scan.records, ∀ b ∈ scan.records, a ≠ b →
    materializedName stableHash a ≠ materializedName stableHash b
  order : ∀ format, formatOf numText source = some format →
    ∀ conversation ∈ imported ofLexeme numText stableHash format filters raw,
      (format.extractMessages conversation).Pairwise (Ascend value)

/-- No two different records have one slug and one hash, as far as the names go. -/
def NamesApart (records : List ImportRecord) : Prop := ∀ a ∈ records, ∀ b ∈ records,
  slugifyFilename a.title = slugifyFilename b.title →
    (stableHash a.sourceId).take 12 = (stableHash b.sourceId).take 12 → a = b

/-- An array lists the messages with numbers for times in ascending order. -/
def ItemsAscend (roleNames : List String) (timeName : String) (messages : Option (Json N)) : Prop :=
  (((messages.bind asArray).getD []).zipIdx).Pairwise fun x y =>
    ∀ a, itemMessage roleNames timeName x.1 x.2 = some a →
      ∀ b, itemMessage roleNames timeName y.1 y.2 = some b → Ascend value a b

/-- In a map, the texts of numeric times are in the order of the numbers; an array is in order
already. -/
def TimesAgree (source : SchemaImportSource) (conversation : Json N) : Prop :=
  match source with
  | .chatGpt =>
    match (conversation.get "mapping").bind asObject with
    | some mapping => TextsAgree value numText (mappingMessages mapping)
    | none => ItemsAscend value ["role", "sender", "author"]
      "create_time" (conversation.get "messages")
  | .claude =>
    ItemsAscend value ["sender", "role", "author"] "created_at"
      ((conversation.get "chat_messages").or (conversation.get "messages"))
  | .bookmarks => True

variable {ofLexeme numText stableHash value}

theorem materializedName_eq_iff (hhash : ∀ s, 12 ≤ (stableHash s).length) (a b : ImportRecord) :
    materializedName stableHash a = materializedName stableHash b ↔
      slugifyFilename a.title = slugifyFilename b.title ∧
        (stableHash a.sourceId).take 12 = (stableHash b.sourceId).take 12 := by
  have hlength (s : List Char) : ((stableHash s).take 12).length = 12 := by
    rw [List.length_take, Nat.min_eq_left (hhash s)]
  unfold materializedName
  constructor
  · intro heq
    obtain ⟨hslug, hrest⟩ :=
      List.append_inj' heq (by simp only [List.length_cons, List.length_append, hlength])
    obtain ⟨hhashes, -⟩ := List.append_inj (List.cons.inj hrest).2 (by rw [hlength, hlength])
    exact ⟨hslug, hhashes⟩
  · rintro ⟨hslug, hhashes⟩
    rw [hslug, hhashes]

theorem names_iff (hhash : ∀ s, 12 ≤ (stableHash s).length) (records : List ImportRecord) :
    (∀ a ∈ records, ∀ b ∈ records, a ≠ b →
      materializedName stableHash a ≠ materializedName stableHash b) ↔
      NamesApart stableHash records := by
  constructor
  · intro h a ha b hb hslug hhashes
    by_contra hne
    exact h a ha b hb hne ((materializedName_eq_iff hhash a b).2 ⟨hslug, hhashes⟩)
  · intro h a ha b hb hne heq
    obtain ⟨hslug, hhashes⟩ := (materializedName_eq_iff hhash a b).1 heq
    exact hne (h a ha b hb hslug hhashes)

theorem pairwise_itemMessages (roleNames : List String) (timeName : String)
    (messages : Option (Json N)) :
    (itemMessages roleNames timeName messages).Pairwise (Ascend value) ↔
    ItemsAscend value roleNames timeName messages :=
  List.pairwise_filterMap

theorem order_iff {source : SchemaImportSource} {format : ConversationFormat N}
    (hformat : formatOf numText source = some format) (conversation : Json N) :
    (format.extractMessages conversation).Pairwise (Ascend value) ↔
    TimesAgree numText value source conversation := by
  cases source with
  | chatGpt =>
    obtain rfl := Option.some.inj hformat
    unfold TimesAgree chatgptFormat
    dsimp only
    unfold extractChatgptMessages
    cases (conversation.get "mapping").bind asObject with
    | none => exact pairwise_itemMessages _ _ _
    | some mapping => exact pairwise_ascend_iff (places_mappingMessages mapping)
  | claude =>
    obtain rfl := Option.some.inj hformat
    exact pairwise_itemMessages _ _ _
  | bookmarks => cases hformat

def Timestamp.number? : Timestamp N → Option N
  | .text _ => none
  | .number n => some n

/-- The numeric times of the messages. -/
def numbers (messages : List (TranscriptMessage N)) : List (Option N) :=
  messages.map fun m => m.createdAt.bind Timestamp.number?

theorem createdAt_eq_of_number? {m : TranscriptMessage N} {n : N}
    (h : m.createdAt.bind Timestamp.number? = some n) : m.createdAt = some (.number n) := by
  obtain ⟨t, ht, hn⟩ := Option.bind_eq_some_iff.1 h
  cases t with
  | text s => cases hn
  | number k => exact ht.trans (congrArg (fun x => some (Timestamp.number x)) (Option.some.inj hn))

theorem pairwise_numbers {messages : List (TranscriptMessage N)} :
    messages.Pairwise (Ascend value) ↔
    (numbers messages).Pairwise fun x y => ∀ s t, x = some s → y = some t → value s ≤ value t := by
  have hnumber {m : TranscriptMessage N} {n : N} (h : m.createdAt = some (.number n)) :
      m.createdAt.bind Timestamp.number? = some n := by
    rw [h]
    rfl
  refine ⟨fun h => List.pairwise_map.2 (h.imp fun {a b} hab s t hs ht => ?_),
    fun h => (List.pairwise_map.1 h).imp fun {a b} hab s t hs ht => hab s t (hnumber hs)
      (hnumber ht)⟩
  exact hab s t (createdAt_eq_of_number? hs) (createdAt_eq_of_number? ht)

/-! ### The loop over the conversations -/

section

variable {format : ConversationFormat N} {filters : List (List Char)}

variable (numText stableHash format filters) in
/-- One turn keeps the counts, and adds the record of a conversation that is neither filtered nor
skipped. -/
theorem importConversation_spec (scan : SchemaImportScan) (conversation : Json N) :
    ((importConversation numText stableHash format filters scan conversation).recordsScanned =
      scan.recordsScanned + 1 ∧
      (importConversation numText stableHash format filters scan conversation).filteredRecords +
        (importConversation numText stableHash format filters scan conversation).skippedRecords +
        (importConversation numText stableHash format filters scan conversation).records.length
      = scan.filteredRecords + scan.skippedRecords + scan.records.length + 1) ∧
    (importConversation numText stableHash format filters scan conversation).records =
    scan.records ++
      ([conversation].filter fun c =>
        matchesSchemaFilters (conversationId numText stableHash format c)
        (conversationTitle format c) filters && !(format.extractMessages c).isEmpty).map
        (conversationRecord numText stableHash format) := by
  unfold importConversation
  dsimp only
  cases hmatch : matchesSchemaFilters (conversationId numText stableHash format conversation)
      (conversationTitle format conversation) filters with
  | false =>
    have hnot : (!false) = true := rfl
    rw [if_pos hnot, List.filter_cons_of_neg (by rw [hmatch, Bool.false_and]; decide),
      List.filter_nil, List.map_nil, List.append_nil]
    exact ⟨⟨rfl, by dsimp only; omega⟩, rfl⟩
  | true =>
    have hnot : ¬(!true) = true := Bool.false_ne_true
    rw [if_neg hnot]
    cases hempty : (format.extractMessages conversation).isEmpty with
    | true =>
      rw [if_pos rfl, List.filter_cons_of_neg (by rw [hmatch, hempty]; decide), List.filter_nil,
        List.map_nil, List.append_nil]
      exact ⟨⟨rfl, by dsimp only; omega⟩, rfl⟩
    | false =>
      rw [if_neg (by decide), List.filter_cons_of_pos (by rw [hmatch, hempty]; decide),
        List.filter_nil, List.map_singleton]
      refine ⟨⟨rfl, ?_⟩, rfl⟩
      dsimp only
      rw [List.length_append, List.length_singleton]
      omega

theorem foldl_importConversation (conversations : List (Json N)) (scan : SchemaImportScan)
    (hscan : scan.recordsScanned = scan.filteredRecords + scan.skippedRecords +
      scan.records.length) :
    (conversations.foldl (importConversation numText stableHash format filters) scan).recordsScanned
      = (conversations.foldl (importConversation numText stableHash format filters)
        scan).filteredRecords
        + (conversations.foldl (importConversation numText stableHash format filters)
          scan).skippedRecords
        + (conversations.foldl (importConversation numText stableHash format filters)
          scan).records.length ∧
    (conversations.foldl (importConversation numText stableHash format filters) scan).records =
    scan.records ++
      (conversations.filter fun c =>
        matchesSchemaFilters (conversationId numText stableHash format c)
        (conversationTitle format c) filters && !(format.extractMessages c).isEmpty).map
        (conversationRecord numText stableHash format) := by
  induction conversations generalizing scan with
  | nil => exact ⟨hscan, by rw [List.foldl_nil, List.filter_nil, List.map_nil, List.append_nil]⟩
  | cons conversation conversations ih =>
    obtain ⟨⟨hscanned, hsum⟩, hrecords⟩ :=
      importConversation_spec numText stableHash format filters scan conversation
    obtain ⟨hcounts, hall⟩ := ih _ (by rw [hscanned, hsum, hscan])
    refine ⟨hcounts, ?_⟩
    rw [List.foldl_cons, hall, hrecords, List.append_assoc, ← List.map_append, ← List.filter_append,
      List.singleton_append]

theorem importConversations_spec {raw : List Char} {scan : SchemaImportScan}
    (hscan : importConversations numText stableHash format ofLexeme filters raw = some scan) :
    scan.recordsScanned = scan.filteredRecords + scan.skippedRecords + scan.records.length ∧
      scan.records = (imported ofLexeme numText stableHash format filters raw).map
      (conversationRecord numText stableHash format) := by
  simp only [importConversations, Option.bind_eq_bind, Option.bind_eq_some_iff, Option.pure_def,
    Option.some.injEq] at hscan
  obtain ⟨v, hv, conversations, hconversations, rfl⟩ := hscan
  obtain ⟨hcounts, hrecords⟩ := foldl_importConversation conversations SchemaImportScan.new rfl
  refine ⟨hcounts, ?_⟩
  unfold imported
  rw [hv, Option.bind_some, hconversations]
  exact hrecords

end

theorem scanBookmarks_counts (bookmarks : List BookmarkItem) :
    (scanBookmarks stableHash bookmarks).recordsScanned
    = (scanBookmarks stableHash bookmarks).filteredRecords +
    (scanBookmarks stableHash bookmarks).skippedRecords
      + (scanBookmarks stableHash bookmarks).records.length := by
  unfold scanBookmarks
  dsimp only
  have hle := List.length_filter_le (fun b : BookmarkItem => !(trimList b.url).isEmpty) bookmarks
  rw [List.length_map]
  omega

/-- What holds of every scan, whatever the names and times are. -/
theorem parseSchemaImport_spec {isWord : Char → Bool} {source : SchemaImportSource} {json : Bool}
    {raw : List Char} {filters : List (List Char)} {scan : SchemaImportScan}
    (hscan : parseSchemaImport ofLexeme numText stableHash isWord source json raw filters =
      some scan) :
    scan.recordsScanned = scan.filteredRecords + scan.skippedRecords + scan.records.length ∧
      ∀ format, formatOf numText source = some format → scan.records
        = (imported ofLexeme numText stableHash format filters raw).map
        (conversationRecord numText stableHash format) := by
  cases source with
  | chatGpt =>
    obtain ⟨hcounts, hrecords⟩ := importConversations_spec hscan
    exact ⟨hcounts, fun format hformat => Option.some.inj hformat ▸ hrecords⟩
  | claude =>
    obtain ⟨hcounts, hrecords⟩ := importConversations_spec hscan
    exact ⟨hcounts, fun format hformat => Option.some.inj hformat ▸ hrecords⟩
  | bookmarks =>
    refine ⟨?_, fun format hformat => by cases hformat⟩
    cases json with
    | true =>
      obtain ⟨v, -, rfl⟩ := Option.map_eq_some_iff.1 hscan
      exact scanBookmarks_counts _
    | false =>
      obtain rfl := Option.some.inj hscan
      exact scanBookmarks_counts _

end

end Import

/-- The counts always add up and the records are those of the conversations. Nothing is overwritten
exactly where different records differ in the slug of the title or in twelve digits of the hash, and
transcripts are in the order of their numeric times exactly where the texts of these are, or an
array lists them so. -/
theorem schemaImport_keeps_iff {N R : Type} [LE R] (value : N → R) (ofLexeme : List Char → Option N)
    (numText : N → List Char)
    {stableHash : List Char → List Char} (hhash : ∀ s, 12 ≤ (stableHash s).length)
    (isWord : Char → Bool)
    (source : Import.SchemaImportSource) (json : Bool) (raw : List Char)
    (filters : List (List Char)) {scan : Import.SchemaImportScan}
    (hscan : Import.parseSchemaImport ofLexeme numText stableHash isWord source json raw filters =
      some scan) :
    Import.Keeps ofLexeme numText stableHash value source filters raw scan ↔
      Import.NamesApart stableHash scan.records ∧ ∀ format, Import.formatOf numText source =
      some format →
        ∀ conversation ∈ Import.imported ofLexeme numText stableHash format filters raw,
          Import.TimesAgree numText value source conversation := by
  obtain ⟨hcounts, hrecords⟩ := Import.parseSchemaImport_spec hscan
  constructor
  · intro hkeeps
    refine ⟨(Import.names_iff hhash _).1 hkeeps.names, fun format hformat conversation hmem => ?_⟩
    exact (Import.order_iff hformat conversation).1 (hkeeps.order format hformat conversation hmem)
  · rintro ⟨hapart, hagree⟩
    refine ⟨hcounts, hrecords, (Import.names_iff hhash _).2 hapart,
      fun format hformat conversation hmem => ?_⟩
    exact (Import.order_iff hformat conversation).2 (hagree format hformat conversation hmem)

/-- Two conversations, the first of which lists the later of its two messages first. -/
theorem schemaImport_keeps_iff_twoConversations :
    let ofLexeme : List Char → Option ℕ :=
      fun cs => some (cs.foldl (fun n c => n * 10 + (c.toNat - 48)) 0)
    let stableHash : List Char → List Char := fun s =>
      if s = ['u'] then "0bfe935e70c321c7ca3afc75ce0d0ca2f98b5422e008bb31c00c6d7f1f1c0ad6".toList
      else "4eeef5e3fb0e72c3874aeabbc9bd93ef7ac422e1db45714b3d73dd66d2a2e550".toList
    let raw := ("[\x7b\"id\":\"u\",\"title\":\"Tea\",\"mapping\":\x7b" ++
      "\"a\":\x7b\"message\":\x7b\"content\":\"x\",\"create_time\":20\x7d\x7d," ++
      "\"b\":\x7b\"message\":\x7b\"content\":\"y\",\"create_time\":10\x7d\x7d\x7d\x7d," ++
      "\x7b\"id\":\"v\",\"title\":\"Rust\",\"mapping\":\x7b" ++
      "\"c\":\x7b\"message\":\x7b\"content\":\"z\",\"create_time\":5\x7d\x7d\x7d\x7d]").toList
    ∃ scan, Import.parseSchemaImport ofLexeme (Nat.toDigits 10)
    stableHash (fun c => c.isAlphanum || c = '_') .chatGpt true
        raw [] = some scan ∧
      scan.records.map (·.title) = ["Tea".toList, "Rust".toList] ∧
      Import.Keeps ofLexeme (Nat.toDigits 10) stableHash (id : ℕ → ℕ) .chatGpt [] raw scan := by
  intro ofLexeme stableHash raw
  have hhash : ∀ s, 12 ≤ (stableHash s).length := by
    intro s
    dsimp only [stableHash]
    split_ifs <;> decide
  have hrecords :
      (Import.parseSchemaImport ofLexeme (Nat.toDigits 10)
        stableHash (fun c => c.isAlphanum || c = '_') .chatGpt
      true raw []).any
      (fun scan => decide (scan.records.map (·.title) = ["Tea".toList, "Rust".toList] ∧
        ∀ a ∈ scan.records, ∀ b ∈ scan.records, Import.slugifyFilename a.title =
          Import.slugifyFilename b.title → a = b)) =
      true := by decide +kernel
  obtain ⟨scan, hscan, hscanned⟩ := (Option.any_eq_true _ _).1 hrecords
  obtain ⟨htitles, hslugs⟩ := of_decide_eq_true hscanned
  refine ⟨scan, hscan, htitles, (schemaImport_keeps_iff id _ _ hhash _ .chatGpt true _ [] hscan).2
    ⟨?_, ?_⟩⟩
  · exact fun a ha b hb hslug _ => hslugs a ha b hb hslug
  · intro format hformat conversation hmem
    have hnumbers : ∀ c ∈ Import.imported ofLexeme (Nat.toDigits 10)
        stableHash (Import.chatgptFormat (Nat.toDigits 10)) [] raw,
        Import.numbers (Import.extractChatgptMessages (Nat.toDigits 10) c) ∈
        [[some 10, some 20], [some 5]] := by
      decide +kernel
    refine (Import.order_iff hformat conversation).1 (Import.pairwise_numbers.2 ?_)
    obtain rfl := Option.some.inj hformat
    have htimes : ∀ times ∈ [[some 10, some 20], [some 5]],
        times.Pairwise fun x y : Option ℕ => ∀ s t, x = some s → y = some t → s ≤ t := by simp
    exact htimes _ (hnumbers conversation hmem)

/-- Two messages whose numbers 9 and 10 stand as texts the other way, and two bookmarks of one
address and title. -/
theorem schemaImport_overwrites :
    let ofLexeme : List Char → Option ℕ :=
      fun cs => some (cs.foldl (fun n c => n * 10 + (c.toNat - 48)) 0)
    let stableHash : List Char → List Char := fun s =>
      if s = ['u'] then "0bfe935e70c321c7ca3afc75ce0d0ca2f98b5422e008bb31c00c6d7f1f1c0ad6".toList
      else "4eeef5e3fb0e72c3874aeabbc9bd93ef7ac422e1db45714b3d73dd66d2a2e550".toList
    let isWord : Char → Bool := fun c => c.isAlphanum || c = '_'
    let raw :=
      ("[\x7b\"id\":\"c\",\"mapping\":\x7b\"a\":\x7b\"message\":\x7b\"content\":\"x\",\"create_time\":9\x7d\x7d," ++
      "\"b\":\x7b\"message\":\x7b\"content\":\"y\",\"create_time\":10\x7d\x7d\x7d\x7d]").toList
    let marks := "<a href=u add_date=1>t</a><a href=u add_date=2>t</a>".toList
    (∃ scan, Import.parseSchemaImport ofLexeme (Nat.toDigits 10) stableHash isWord .chatGpt true raw
      [] = some scan ∧
      ¬ Import.Keeps ofLexeme (Nat.toDigits 10) stableHash (id : ℕ → ℕ) .chatGpt [] raw scan) ∧
    ∃ scan, Import.parseSchemaImport ofLexeme (Nat.toDigits 10)
    stableHash isWord .bookmarks false marks [] = some scan ∧
      ¬ Import.Keeps ofLexeme (Nat.toDigits 10) stableHash (id : ℕ → ℕ) .bookmarks []
      marks scan := by
  intro ofLexeme stableHash isWord raw marks
  constructor
  · have hsome :
        (Import.parseSchemaImport ofLexeme (Nat.toDigits 10) stableHash isWord .chatGpt true raw
          []).isSome := by
      decide +kernel
    obtain ⟨scan, hscan⟩ := Option.isSome_iff_exists.1 hsome
    refine ⟨scan, hscan, fun hkeeps => ?_⟩
    have hmem : ∃ c ∈ Import.imported ofLexeme (Nat.toDigits 10)
        stableHash (Import.chatgptFormat (Nat.toDigits 10)) [] raw,
        Import.numbers (Import.extractChatgptMessages (Nat.toDigits 10) c) = [some 10, some 9] := by
          decide +kernel
    obtain ⟨c, hc, hnumbers⟩ := hmem
    have hpairs :=
      Import.pairwise_numbers.1 (hkeeps.order (Import.chatgptFormat (Nat.toDigits 10)) rfl c hc)
    have hpairs : [some 10, some 9].Pairwise fun x y : Option ℕ => ∀ s t, x = some s → y = some t →
        s ≤ t := hnumbers ▸ hpairs
    obtain ⟨hfirst, -⟩ := List.pairwise_cons.1 hpairs
    exact absurd (hfirst (some 9) (List.mem_singleton_self _) 10 9 rfl rfl) (by decide)
  · let one : Import.BookmarkItem := ⟨['t'], ['u'], none, some ['1']⟩
    let two : Import.BookmarkItem := ⟨['t'], ['u'], none, some ['2']⟩
    have hparse : Import.parseBookmarksHtml isWord marks = [one, two] := by decide +kernel
    have hscan :=
      congrArg (fun bookmarks => some (Import.scanBookmarks stableHash bookmarks)) hparse
    refine ⟨_, hscan, fun hkeeps => ?_⟩
    refine hkeeps.names (Import.bookmarkRecord stableHash one)
      List.mem_cons_self (Import.bookmarkRecord stableHash two)
      (List.mem_cons_of_mem _ (List.mem_singleton_self _)) (fun heq => ?_) rfl
    exact absurd (congrArg Import.ImportRecord.createdAt heq) (by decide)

end Solo
