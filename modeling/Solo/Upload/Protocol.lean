import Solo.Lib.Result
import Solo.Upload.Manifest

/-!
# The staged upload calls (`document_upload.rs`)

`prepare`, `append`, `status`, `commit`, `abort`, `ingest` and `sweep` on one upload, each with its
lock held from start to end. A call is a program of file operations; the checks it makes before the
first of them are collected in one function (`checkAppend`, `checkCommit`). `now i` is the `i`-th
reading of the clock a call makes. `sha256` is the hash of a byte string in lowercase hex. What the
library does with a committed file is an input of `ingestStagedDocument`.
-/

namespace Solo

open Crash Result

def maxUploadBytes : Nat := 100 * 1024 * 1024
def recommendedChunkBytes : Nat := 8 * 1024 * 1024
def uploadTtlSecs : Int := 60 * 60
def terminalReceiptTtlSecs : Int := 24 * 60 * 60
def stagedUriPrefix : String := "solo-staged://upload/"
def uploadLengthHeader : String := "upload-length"

/-- `i64::saturating_add`. -/
def saturatingAdd (a b : Int) : Int := max (-9223372036854775808) (min 9223372036854775807 (a + b))

/-! ### Names -/

/-- `Path::file_name`. -/
def pathFileName (cs : List Char) : Option (List Char) :=
  match ((cs.splitOn '/').filter fun c => c ≠ [] ∧ c ≠ ['.']).getLast? with
  | none => none
  | some c => if c = ['.', '.'] then none else some c

/-- `Path::extension` of a file name. -/
def pathExtension (cs : List Char) : Option (List Char) :=
  let after := (cs.reverse.takeWhile (· ≠ '.')).reverse
  match cs.reverse.dropWhile (· ≠ '.') with
  | [] => none
  | _ :: before => if before = [] then none else some after

def sanitizePathSegment (cs : List Char) : List Char :=
  Text.trimMatches (· = '.')
    (cs.map fun ch => if ch.isAlphanum ∨ ch ∈ ['.', '-', '_'] then ch else '_')

def sanitizeFilename (filename : String) : String :=
  let leaf := (pathFileName filename.toList).getD filename.toList
  let sanitized := sanitizePathSegment leaf
  if sanitized = [] then "upload" else String.ofList (sanitized.take 160)

def hasAllowedExtension (filename : String) (allowedExtensions : List String) : Bool :=
  match pathExtension filename.toList with
  | none => false
  | some ext =>
    allowedExtensions.any fun allowed =>
      Text.toAsciiLowercase (allowed.toList.dropWhile (· = '.')) =
        Text.toAsciiLowercase (ext.dropWhile (· = '.'))

def normalizeSha256 : Option String → Except Error (Option String)
  | none => .ok none
  | some value =>
    let value := Text.toAsciiLowercase (Text.trimList value.toList)
    if value = [] then .ok none
    else if value.length ≠ 64 ∨ ¬ value.all Text.isAsciiHexdigit then
      .error (.invalidInput "sha256 must be 64 lowercase or uppercase hex characters")
    else .ok (some (String.ofList value))

/-! ### Status -/

structure UploadCommitResponse where
  uploadId : String
  stagedUri : String
  filename : String
  mimeType : String
  sizeBytes : Nat
  sha256 : String
  deriving DecidableEq, Repr

structure UploadStatusResponse where
  uploadId : String
  status : UploadStatus
  bytesReceived : Nat
  sizeBytes : Nat
  nextOffset : Nat
  expiresAtMs : Int
  stagedUri : Option String
  commitResult : Option UploadCommitResponse
  ingestResult : Option StagedIngestResponse
  terminal : Bool
  deriving DecidableEq, Repr

def stagedUri (uploadId : String) : String := stagedUriPrefix ++ uploadId

def uploadIsExpiredAt (m : UploadManifest) (now : Int) : Bool :=
  (m.status = .open ∨ m.status = .committed ∨ m.status = .ingested ∨ m.status = .aborted) ∧
    now > m.expiresAtMs

def terminalReceiptExpiresAtMs (now : Int) : Int :=
  saturatingAdd now (terminalReceiptTtlSecs * 1000)

def commitResponseFromManifest (m : UploadManifest) : Except Error UploadCommitResponse :=
  match m.actualSha256 with
  | none => .error (.storage s!"committed upload {m.uploadId} is missing its SHA-256")
  | some sha256 =>
    .ok ⟨m.uploadId, stagedUri m.uploadId, m.filename, m.mimeType, m.sizeBytes, sha256⟩

def statusFromManifest (m : UploadManifest) (now : Int) : UploadStatusResponse :=
  let status := if uploadIsExpiredAt m now then .expired else m.status
  let commitResult :=
    if status = .committed ∨ status = .ingested then (commitResponseFromManifest m).toOption
      else none
  { uploadId := m.uploadId, status, bytesReceived := m.bytesReceived, sizeBytes := m.sizeBytes
    nextOffset := m.bytesReceived, expiresAtMs := m.expiresAtMs,
    stagedUri := commitResult.map (·.stagedUri)
    commitResult, ingestResult := m.ingestResult
    terminal := status = .ingested ∨ status = .expired ∨ status = .aborted }

/-- `{:?}` of a status. -/
def UploadStatus.debug : UploadStatus → String
  | .open => "Open"
  | .busy => "Busy"
  | .committed => "Committed"
  | .ingested => "Ingested"
  | .expired => "Expired"
  | .aborted => "Aborted"

def ensureOpen (m : UploadManifest) (now : Int) : Except Error Unit :=
  if (statusFromManifest m now).status = .expired then .error (.invalidInput "upload has expired")
  else if m.status ≠ .open then .error (.conflict s!"upload is not open (status: {m.status.debug})")
  else .ok ()

theorem ensureOpen_eq_ok {m : UploadManifest} {now : Int} {u : Unit} :
    ensureOpen m now = .ok u ↔ m.status = .open ∧ now ≤ m.expiresAtMs := by
  unfold ensureOpen statusFromManifest uploadIsExpiredAt
  by_cases h : now > m.expiresAtMs
  · cases m.status <;> simp [h]
  · have hle : now ≤ m.expiresAtMs := Int.not_lt.1 h
    cases m.status <;> simp [h, hle]

/-! ### File operations on staged bytes -/

/-- The name the bytes are staged under until the commit. -/
def uploadPart : String := "upload.part"

namespace UploadFile

/-- `create_dir_all` of the upload directory. -/
def createDirAll : UploadProg Unit :=
  Prog.op (fun s => some s.makeDir) (fun _ s => s) (.storage "create upload dir")

/-- Opens for appending, creating the file, and writes all of `bytes`: refused without the
directory. Cut after one step the file is there, and after that many more bytes are. -/
def append (name : String) (bytes : List UInt8) : UploadProg Unit :=
  Prog.op (fun s => s.files.map fun _ => s.setFile name (some ((s.dir name).getD [] ++ bytes)))
    (fun n s =>
      if n = 0 then s else s.setFile name (some ((s.dir name).getD [] ++ bytes.take (n - 1))))
    (.storage "open upload part")

/-- `set_len` of an existing file. -/
def setLen (name : String) (len : Nat) : UploadProg Unit :=
  Prog.op (fun s => (s.dir name).map fun b => s.setFile name (some (b.take len))) (fun _ s => s)
    (.storage "roll back upload part")

def removeIfExists (name : String) : UploadProg Unit :=
  Prog.op (fun s => some (s.setFile name none)) (fun _ s => s) (.storage "remove")

/-- `remove_dir_if_empty` of the upload directory. -/
def removeDirIfEmpty : UploadProg Unit :=
  Prog.op (fun s => some s.removeDir) (fun _ s => s) (.storage "remove dir")

def rename (src dst : String) : UploadProg Unit :=
  Prog.op (fun s => (s.dir src).map fun b => (s.setFile src none).setFile dst (some b))
    (fun _ s => s) (.storage "commit upload")

end UploadFile

/-- `load_manifest_for_upload` within a call. -/
def loadManifest (id : String) : UploadProg UploadManifest :=
  .read fun s => .ret (loadManifestForUpload s id)

/-! ### Prepare -/

structure UploadPrepareRequest where
  filename : String
  mimeType : Option String
  sizeBytes : Nat
  sha256 : Option String

def validatePrepareRequest (request : UploadPrepareRequest) (allowedExtensions : List String)
    (allowAssetOnlyUploads : Bool) : Except Error Unit :=
  if Text.isBlank request.filename then .error (.invalidInput "filename must not be empty")
  else if request.sizeBytes = 0 then .error (.invalidInput "size_bytes must be > 0")
  else if request.sizeBytes > maxUploadBytes then
    .error (.invalidInput s!"size_bytes must be <= {maxUploadBytes}")
  else if !allowAssetOnlyUploads && !hasAllowedExtension (sanitizeFilename request.filename)
    allowedExtensions then
    .error (.invalidInput s!"filename extension is not allowed: {request.filename}")
  else (normalizeSha256 request.sha256).map fun _ => ()

theorem validatePrepareRequest_eq_ok {request : UploadPrepareRequest}
    {allowedExtensions : List String} {allowAssetOnlyUploads : Bool} {u : Unit}
    (h : validatePrepareRequest request allowedExtensions allowAssetOnlyUploads = .ok u) :
    0 < request.sizeBytes ∧ request.sizeBytes ≤ maxUploadBytes ∧
    ∃ e, normalizeSha256 request.sha256 = .ok e := by
  unfold validatePrepareRequest at h
  split at h
  · simp at h
  split at h
  · simp at h
  split at h
  · simp at h
  split at h
  · simp at h
  · next hpos hle _ =>
    cases he : normalizeSha256 request.sha256 with
    | error e => simp [he, Except.map] at h
    | ok e => exact ⟨Nat.pos_of_ne_zero hpos, Nat.not_lt.1 hle, e, rfl⟩

/-- The manifest of a new upload. -/
def preparedManifest (id : String) (request : UploadPrepareRequest) (expectedSha256 : Option String)
    (now : Int) :
    UploadManifest :=
  let mimeType := (request.mimeType.map Text.trim).filter (· ≠ "")
  { uploadId := id, filename := request.filename, sanitizedFilename := sanitizeFilename request.filename
    mimeType := mimeType.getD "application/octet-stream", sizeBytes := request.sizeBytes,
    expectedSha256
    actualSha256 := none, bytesReceived := 0, status := .open, createdAtMs := now
    expiresAtMs := saturatingAdd now (uploadTtlSecs * 1000), ingestResult := none }

/-- `prepare_upload` with the fresh id `id`; the reply is the manifest it writes. -/
def prepareUpload (id : String) (request : UploadPrepareRequest) (allowedExtensions : List String)
    (defaultStoreOriginalFile : Bool) (now : ℕ → Int) : UploadProg UploadManifest := do
  Prog.ofExcept (validatePrepareRequest request allowedExtensions defaultStoreOriginalFile)
  let expectedSha256 ← Prog.ofExcept (normalizeSha256 request.sha256)
  let manifest := preparedManifest id request expectedSha256 (now 0)
  UploadFile.createDirAll
  writeManifest manifest
  pure manifest

/-! ### Append -/

/-- The checks `append_upload_chunk` makes before it writes; the new offset. `part` is what
`upload.part` holds. -/
def checkAppend (manifest : UploadManifest) (part : Option (List UInt8)) (offset : Nat)
    (uploadLength : Option Nat) (bytes : List UInt8) (now : Int) : Except Error Nat := do
  ensureOpen manifest now
  rejectIf (∃ n ∈ uploadLength, n ≠ manifest.sizeBytes) (.invalidInput
    s!"{uploadLengthHeader} ({uploadLength.getD 0}) does not match prepared size_bytes ({manifest.sizeBytes})")
  rejectIf (offset ≠ manifest.bytesReceived)
    (.conflict s!"wrong upload offset: expected {manifest.bytesReceived}, got {offset}")
  let next := manifest.bytesReceived + bytes.length
  rejectIf (2 ^ 64 ≤ next) (.invalidInput "upload size overflow")
  rejectIf (next > manifest.sizeBytes)
    (.invalidInput s!"upload would exceed prepared size_bytes ({manifest.sizeBytes})")
  rejectIf (next > maxUploadBytes)
    (.invalidInput s!"upload would exceed max_file_bytes ({maxUploadBytes})")
  let currentLen := (part.map List.length).getD 0
  rejectIf (currentLen ≠ manifest.bytesReceived) (.conflict
    s!"upload part length ({currentLen}) does not match manifest offset ({manifest.bytesReceived})")
  return next

theorem checkAppend_eq_ok {m : UploadManifest} {part : Option (List UInt8)} {offset : Nat}
    {uploadLength : Option Nat} {bytes : List UInt8} {now : Int} {next : Nat} :
    checkAppend m part offset uploadLength bytes now = .ok next ↔
      (m.status = .open ∧ now ≤ m.expiresAtMs) ∧ (∀ n ∈ uploadLength, n = m.sizeBytes) ∧
      offset = m.bytesReceived ∧ m.bytesReceived + bytes.length < 2 ^ 64 ∧
      m.bytesReceived + bytes.length ≤ m.sizeBytes ∧
      m.bytesReceived + bytes.length ≤ maxUploadBytes ∧
      (part.getD []).length = m.bytesReceived ∧ m.bytesReceived + bytes.length = next := by
  have hlen : (part.map List.length).getD 0 = (part.getD []).length := by cases part <;> rfl
  simp [checkAppend, bind_eq_ok, map_eq_ok, ensureOpen_eq_ok, hlen]

/-- `append_upload_chunk`. -/
def appendUploadChunk (id : String) (offset : Nat) (uploadLength : Option Nat) (bytes : List UInt8)
    (now : ℕ → Int) : UploadProg UploadStatusResponse := do
  if bytes = [] then Prog.throw (.invalidInput "upload chunk must not be empty")
  else if bytes.length > recommendedChunkBytes then
    Prog.throw (.invalidInput s!"upload chunk must be <= {recommendedChunkBytes} bytes")
  else
    let manifest ← loadManifest id
    let part ← Prog.get fun s => s.dir uploadPart
    let next ← Prog.ofExcept (checkAppend manifest part offset uploadLength bytes (now 0))
    UploadFile.append uploadPart bytes
    let manifest' := { manifest with bytesReceived := next }
    writeManifestOr manifest' (UploadFile.setLen uploadPart manifest.bytesReceived)
      (.ok (statusFromManifest manifest' (now 1)))

/-- `upload_status`, with the lock free. -/
def uploadStatus (id : String) (now : ℕ → Int) : UploadProg UploadStatusResponse := do
  let manifest ← loadManifest id
  pure (statusFromManifest manifest (now 0))

/-! ### Commit -/

/-- The checks `commit_upload` makes on an open upload before it moves the file; the hash of the
received bytes. -/
def checkCommit (sha256 : List UInt8 → String) (manifest : UploadManifest)
    (part : Option (List UInt8))
    (requestSha256 : Option String) (now : Int) : Except Error String := do
  ensureOpen manifest now
  rejectIf (manifest.bytesReceived ≠ manifest.sizeBytes)
    (.conflict
      s!"upload incomplete: received {manifest.bytesReceived} of {manifest.sizeBytes} bytes")
  let bytes ← part.elim (.error (.storage "metadata upload part")) .ok
  rejectIf (bytes.length ≠ manifest.sizeBytes) (.conflict
    s!"upload part length ({bytes.length}) does not match prepared size_bytes ({manifest.sizeBytes})")
  let actualSha256 := sha256 bytes
  let requested ← normalizeSha256 requestSha256
  let shown := (requested.or manifest.expectedSha256).getD ""
  rejectIf (∃ expected ∈ requested.or manifest.expectedSha256, expected ≠ actualSha256)
    (.invalidInput
    s!"sha256 mismatch: expected {shown}, got {actualSha256}")
  return actualSha256

theorem checkCommit_eq_ok {sha256 : List UInt8 → String} {m : UploadManifest}
    {part : Option (List UInt8)} {requestSha256 : Option String} {now : Int} {actual : String} :
    checkCommit sha256 m part requestSha256 now = .ok actual ↔
      (m.status = .open ∧ now ≤ m.expiresAtMs) ∧ m.bytesReceived = m.sizeBytes ∧
      ∃ bytes, part = some bytes ∧
        bytes.length = m.sizeBytes ∧ ∃ requested, normalizeSha256 requestSha256 = .ok requested ∧
          (∀ expected ∈ requested.or m.expectedSha256, expected = sha256 bytes) ∧
          sha256 bytes = actual := by
  have helim : ∀ bytes, part.elim (.error (.storage "metadata upload part"))
      (Except.ok (ε := Error)) = .ok bytes ↔ part = some bytes := by
    cases part <;> simp
  simp only [checkCommit, bind_eq_ok, helim, pure_eq_ok, rejectIf_eq_ok, ensureOpen_eq_ok,
    not_exists, not_and, exists_const, not_not]

/-- The end of `commit_upload`: the bytes move to the final name, then the manifest says so; if it
cannot be written the move is rolled back. -/
def moveUpload (manifest : UploadManifest) : UploadProg UploadCommitResponse := do
  UploadFile.rename uploadPart manifest.sanitizedFilename
  writeManifestOr manifest (UploadFile.rename manifest.sanitizedFilename uploadPart)
    (commitResponseFromManifest manifest)

/-- `commit_upload` on an open upload. -/
def commitOpenUpload (sha256 : List UInt8 → String) (manifest : UploadManifest)
    (requestSha256 : Option String) (now : ℕ → Int) : UploadProg UploadCommitResponse := do
  let part ← Prog.get fun s => s.dir uploadPart
  let actualSha256 ← Prog.ofExcept (checkCommit sha256 manifest part requestSha256 (now 1))
  UploadFile.createDirAll
  if ← Prog.get fun s => (s.dir manifest.sanitizedFilename).isSome then
    UploadFile.removeIfExists manifest.sanitizedFilename
  moveUpload { manifest with actualSha256 := some actualSha256, status := .committed }

/-- `commit_upload` on a loaded manifest. -/
def commitLoadedUpload (sha256 : List UInt8 → String) (manifest : UploadManifest)
    (requestSha256 : Option String) (now : ℕ → Int) : UploadProg UploadCommitResponse :=
  if uploadIsExpiredAt manifest (now 0) then Prog.throw (.invalidInput "staged upload has expired")
  else
    match manifest.status with
    | .committed | .ingested => Prog.ofExcept (commitResponseFromManifest manifest)
    | .aborted => Prog.throw (.conflict "upload is aborted")
    | .busy | .expired =>
      Prog.throw (.conflict s!"upload cannot be committed from status {manifest.status.debug}")
    | .open => commitOpenUpload sha256 manifest requestSha256 now

/-- `commit_upload`. -/
def commitUpload (sha256 : List UInt8 → String) (id : String) (requestSha256 : Option String)
    (now : ℕ → Int) : UploadProg UploadCommitResponse := do
  let manifest ← loadManifest id
  commitLoadedUpload sha256 manifest requestSha256 now

/-! ### Abort -/

structure UploadAbortResponse where
  uploadId : String
  status : UploadStatus
  cleanupPerformed : Bool
  alreadyAborted : Bool
  removedPartialFile : Bool
  removedStagedFile : Bool
  deriving DecidableEq, Repr

/-- `abort_upload` on a loaded manifest. -/
def abortLoadedUpload (id : String) (manifest : UploadManifest) (now : ℕ → Int) :
    UploadProg UploadAbortResponse := do
  if manifest.status = .ingested then
    Prog.throw (.conflict "upload is already ingested; inspect its terminal status receipt")
  else if manifest.status = .aborted then
    pure ⟨id, .aborted, false, true, false, false⟩
  else
    let removedPartialFile ← Prog.get fun s => (s.dir uploadPart).isSome
    let removedStagedFile ← Prog.get fun s => (s.dir manifest.sanitizedFilename).isSome
    UploadFile.removeIfExists uploadPart
    UploadFile.removeIfExists manifest.sanitizedFilename
    UploadFile.removeDirIfEmpty
    writeManifest { manifest with
      status := .aborted, expiresAtMs := terminalReceiptExpiresAtMs (now 0), ingestResult := none }
    pure ⟨id, .aborted, removedPartialFile || removedStagedFile, false, removedPartialFile,
      removedStagedFile⟩

/-- `abort_upload`. -/
def abortUpload (id : String) (now : ℕ → Int) : UploadProg UploadAbortResponse := do
  let manifest ← loadManifest id
  abortLoadedUpload id manifest now

/-! ### Ingest -/

structure StagedIngestRequest where
  stagedUri : String
  retainSourceFile : Bool

/-- What the library commands of an ingest come to: the document, or the stored original alone. -/
structure LibraryIngest where
  documentId : Option String
  extractionStatus : String

/-- `cleanup_staged_upload_after_ingest`. -/
def cleanupStagedUploadAfterIngest (finalPath : String) (retainSourceFile : Bool) :
    UploadProg Bool := do
  if retainSourceFile then pure false
  else
    match ← (UploadFile.removeIfExists finalPath).attempt with
    | .ok _ =>
      let _ ← UploadFile.removeDirIfEmpty.attempt
      pure true
    | .error _ => pure false

/-- `finalize_ingest_response`. -/
def finalizeIngestResponse (manifest : UploadManifest) (response : StagedIngestResponse)
    (now : ℕ → Int) : UploadProg StagedIngestResponse := do
  let response := { response with idempotentReplay := false, ingestCompletedAtMs := now 1 }
  let manifest := { manifest with
    status := .ingested, expiresAtMs := terminalReceiptExpiresAtMs (now 2), ingestResult := some response }
  writeManifest manifest
  let deleted ← cleanupStagedUploadAfterIngest manifest.sanitizedFilename
      response.retainedSourceFile
  let response := { response with deletedStagedFile := deleted }
  writeManifest { manifest with ingestResult := some response }
  pure response

/-- `ingest_staged_document` on an upload that is already ingested. -/
def replayIngest (manifest : UploadManifest) : UploadProg StagedIngestResponse := do
  match manifest.ingestResult with
  | none =>
    Prog.throw (.storage s!"ingested upload {manifest.uploadId} is missing its terminal receipt")
  | some receipt =>
    if !receipt.retainedSourceFile && !receipt.deletedStagedFile then
      let deleted ← cleanupStagedUploadAfterIngest manifest.sanitizedFilename
          receipt.retainedSourceFile
      let receipt := { receipt with deletedStagedFile := deleted }
      writeManifest { manifest with ingestResult := some receipt }
      pure { receipt with idempotentReplay := true }
    else pure { receipt with idempotentReplay := true }

/-- `ingest_staged_document`. -/
def ingestStagedDocument (id : String) (request : StagedIngestRequest)
    (library : Except Error LibraryIngest) (now : ℕ → Int) : UploadProg StagedIngestResponse := do
  let manifest ← loadManifest id
  if manifest.status = .ingested then replayIngest manifest
  else if (statusFromManifest manifest (now 0)).status = .expired then
    Prog.throw (.invalidInput "staged upload has expired")
  else if manifest.status ≠ .committed then
    Prog.throw (.conflict s!"staged upload is not committed (status: {manifest.status.debug})")
  else if !(← Prog.get fun s => (s.dir manifest.sanitizedFilename).isSome) then
    Prog.throw (.notFound s!"staged upload file is missing for {id}")
  else
    let done ← Prog.ofExcept library
    finalizeIngestResponse manifest
      { stagedUri := request.stagedUri, documentId := done.documentId, extractionStatus := done.extractionStatus
        deletedStagedFile := false, retainedSourceFile := request.retainSourceFile,
        idempotentReplay := false
        ingestCompletedAtMs := 0 } now

/-! ### Sweep -/

/-- `remove_upload_paths`. -/
def removeUploadPaths (manifest : UploadManifest) : UploadProg Unit := do
  UploadFile.removeIfExists uploadPart
  UploadFile.removeIfExists manifest.sanitizedFilename
  ManifestPath.removeIfExists .tmp
  ManifestPath.removeIfExists .primary
  ManifestPath.removeIfExists .bak
  UploadFile.removeDirIfEmpty

/-- `sweep_expired_uploads`, as far as this upload goes; how many uploads it removed. -/
def sweepExpiredUploads (id : String) (now : ℕ → Int) : UploadProg Nat := do
  match ← Prog.get fun s => loadManifestForUpload s id with
  | .error _ => pure 0
  | .ok manifest =>
    if !uploadIsExpiredAt manifest (now 0) then pure 0
    else
      match ← Prog.get fun s => loadManifestForUpload s id with
      | .error _ => pure 0
      | .ok locked =>
        if !uploadIsExpiredAt locked (now 1) then pure 0
        else
          removeUploadPaths locked
          pure 1

end Solo
