import Mathlib.Data.Nat.Notation
import Solo.Lib.Crash
import Solo.Lib.Result
import Solo.Lib.Table
import Solo.Lib.Text
import Solo.Store.Writer

/-!
# Retained assets (`asset_blob.rs`, `asset_files.rs` and the asset commands of `writer.rs`)

The bytes of an asset lie in a blob file under the name of their SHA-256, encrypted if the library
has a key; the nonce is in the row. `store_asset` stages the blob, writes the row in a transaction
and renames the blob into place just before the commit. Where a row exists already it only heals a
missing blob, or makes a deleted row active again. `forget_asset` removes the blob first and marks
the row deleted afterwards.
-/

namespace Solo

open Crash

/-! ### `asset_blob.rs` -/

def assetBlobPlaintextAlg : String := "none"

def assetBlobEncryptionAlg : String := "xchacha20poly1305-blake3-v1"

def assetBlobNonceLen : ℕ := 24

abbrev XNonce := { nonce : List UInt8 // nonce.length = assetBlobNonceLen }

/-- XChaCha20-Poly1305 under the blob key of a library. -/
structure Aead where
  encrypt : XNonce → String → List UInt8 → Option (List UInt8)
  decrypt : XNonce → String → List UInt8 → Option (List UInt8)
  decrypt_encrypt : ∀ nonce aad msg c, encrypt nonce aad msg = some c →
    decrypt nonce aad c = some msg
  decrypt_other : ∀ nonce nonce' aad aad' msg c, encrypt nonce aad msg = some c → nonce ≠ nonce' →
    decrypt nonce' aad' c = none

def normalizeEncryptionAlg (value : String) : String :=
  let trimmed := Text.trim value
  if trimmed = "" then assetBlobPlaintextAlg else trimmed

def assetAad (sha256 : String) (sizeBytes : ℕ) : String :=
  "solo.asset-blob.v1\x00" ++ sha256 ++ "\x00" ++ toString sizeBytes

def encryptAssetBlob (key : Aead) (nonce : Option XNonce) (plaintext : List UInt8) (sha256 : String)
    (sizeBytes : ℕ) : Except Error (List UInt8 × XNonce) :=
  match nonce with
  | none => .error (.storage "asset blob nonce")
  | some nonce =>
    match key.encrypt nonce (assetAad sha256 sizeBytes) plaintext with
    | none => .error (.storage "encrypt asset blob")
    | some ciphertext => .ok (ciphertext, nonce)

section Blob

variable (sha256 : List UInt8 → String)

def validatePlaintext (plaintext : List UInt8) (expectedSha256 : String) (expectedSizeBytes : ℕ) :
    Except Error Unit :=
  if plaintext.length ≠ expectedSizeBytes then .error
    (.storage "asset blob plaintext size mismatch")
  else if sha256 plaintext ≠
    String.ofList (Text.toAsciiLowercase (Text.trimList expectedSha256.toList)) then
    .error (.storage "asset blob plaintext sha256 mismatch")
  else .ok ()

def decryptAssetBlob (key : Option Aead) (encryptionAlg : String)
    (encryptionNonce : Option (List UInt8))
    (plaintextSha256 : String) (plaintextSizeBytes : ℕ) (stored : List UInt8) :
    Except Error (List UInt8) :=
  if normalizeEncryptionAlg encryptionAlg = assetBlobPlaintextAlg then .ok stored
  else if normalizeEncryptionAlg encryptionAlg = assetBlobEncryptionAlg then
    match key, encryptionNonce with
    | none, _ => .error (.storage "asset blob is encrypted but the library key is unavailable")
    | some _, none => .error (.storage "asset blob is encrypted but encryption_nonce is missing")
    | some key, some nonce =>
      if h : nonce.length = assetBlobNonceLen then
        match key.decrypt ⟨nonce, h⟩ (assetAad plaintextSha256 plaintextSizeBytes) stored with
        | none => .error (.storage "decrypt asset blob")
        | some plaintext => .ok plaintext
      else .error (.storage "asset blob encryption_nonce must be 24 bytes")
  else .error (.storage "unsupported asset blob encryption_alg")

def decodeAssetBlob (key : Option Aead) (encryptionAlg : String)
    (encryptionNonce : Option (List UInt8))
    (plaintextSha256 : String) (plaintextSizeBytes : ℕ) (stored : List UInt8) :
    Except Error (List UInt8) := do
  let plaintext ← decryptAssetBlob key encryptionAlg encryptionNonce plaintextSha256
      plaintextSizeBytes stored
  validatePlaintext sha256 plaintext plaintextSha256 plaintextSizeBytes
  pure plaintext

end Blob

/-! ### Rows and files -/

inductive AssetStatus
  | active | deleted
  deriving DecidableEq, Repr

structure AssetRow where
  assetId : String
  sha256 : String
  mimeType : String
  filename : Option String
  sizeBytes : ℕ
  storagePath : String
  source : Option String
  status : AssetStatus
  createdByPrincipal : Option String
  createdAtMs : Int
  updatedAtMs : Int
  encryptionAlg : String
  encryptionNonce : Option (List UInt8)
  encryptedSizeBytes : Option ℕ
  deriving DecidableEq, Repr

/-- Primary key `asset_id`, `UNIQUE (sha256)` and `UNIQUE (storage_path)`. -/
instance : Keyed AssetRow where
  clash a b := a.assetId = b.assetId || a.sha256 = b.sha256 || a.storagePath = b.storagePath
  clash_comm a b := by simp only [eq_comm]

/-- A blob under its final name, or staged beside it. -/
inductive BlobPath
  | final (storagePath : String)
  | tmp (storagePath : String) (stagingId : String)
  deriving DecidableEq, Repr

/-- The `assets` table and the files under the snapshot directory. -/
structure AssetStore where
  assets : Table AssetRow
  files : BlobPath → Option (List UInt8)

namespace AssetStore

def empty : AssetStore := ⟨.empty, fun _ => none⟩

def setFile (s : AssetStore) (p : BlobPath) (b : Option (List UInt8)) : AssetStore :=
  { s with files := fun q => if q = p then b else s.files q }

def setAssets (s : AssetStore) (t : Table AssetRow) : AssetStore := { s with assets := t }

@[simp] theorem setFile_assets (s : AssetStore) (p : BlobPath) (b : Option (List UInt8)) :
    (s.setFile p b).assets = s.assets := rfl

@[simp] theorem setFile_files (s : AssetStore) (p q : BlobPath) (b : Option (List UInt8)) :
    (s.setFile p b).files q = if q = p then b else s.files q := rfl

@[simp] theorem setAssets_assets (s : AssetStore) (t : Table AssetRow) :
    (s.setAssets t).assets = t := rfl

@[simp] theorem setAssets_files (s : AssetStore) (t : Table AssetRow) :
    (s.setAssets t).files = s.files := rfl

end AssetStore

abbrev AssetProg (α : Type) := Prog AssetStore Error α

/-! ### `asset_files.rs` -/

def normalizeSha256Hex (value : String) : Except Error String :=
  let value := Text.toAsciiLowercase (Text.trimList value.toList)
  if value.length ≠ 64 ∨ ¬ value.all Text.isAsciiHexdigit then
    .error (.invalidInput "sha256 must be 64 lowercase or uppercase hex characters")
  else .ok (String.ofList value)

/-- The storage path of a normalized checksum. -/
def assetStoragePath (sha256 : String) : String :=
  "assets/blobs/" ++ String.ofList (sha256.toList.take 2) ++ "/" ++ sha256

/-- `asset_blob_paths`. -/
def assetBlobPaths (sha256 : String) : Except Error String :=
  (normalizeSha256Hex sha256).map assetStoragePath

/-- `Path::components` of a relative path: empty parts and inner `.` are dropped. -/
def pathComponents (path : String) : List String :=
  match (path.toList.splitOn '/').map String.ofList with
  | [] => []
  | first :: rest => (first :: rest.filter (· ≠ ".")).filter (· ≠ "")

/-- `safe_asset_storage_path`, as far as it can fail. -/
def safeAssetStoragePath (storagePath : String) : Except Error Unit :=
  if Text.startsWith storagePath.toList "/" then
    .error (.storage s!"asset storage_path must be relative: {Text.debug storagePath}")
  else if (pathComponents storagePath).any fun part => part = "." || part = ".." then
    .error (.storage
      s!"asset storage_path must contain only normal relative components: {Text.debug storagePath}")
  else
    match pathComponents storagePath with
    | ["assets", "blobs", part, name] => do
      let sha256 ← normalizeSha256Hex name
      if part ≠ String.ofList (sha256.toList.take 2) then
        .error (.storage s!"asset storage_path prefix must match sha256: {Text.debug storagePath}")
      else .ok ()
    | _ => .error (.storage
        s!"asset storage_path must use assets/blobs/<prefix>/<sha256>: {Text.debug storagePath}")

namespace BlobPath

/-- `Path::is_file`. -/
def isFile (p : BlobPath) : AssetProg Bool := Prog.get fun s => (s.files p).isSome

/-- `std::fs::write`. Cut before its first byte it leaves no file, or the old one. -/
def write (p : BlobPath) (bytes : List UInt8) : AssetProg Unit :=
  Prog.op (fun s => some (s.setFile p (some bytes)))
    (fun n s => if n = 0 then s else s.setFile p (some (bytes.take (n - 1))))
    (.storage "write asset blob")

/-- `std::fs::remove_file`: refused when there is no file. -/
def remove (p : BlobPath) (context : String) : AssetProg Unit :=
  Prog.op (fun s => (s.files p).map fun _ => s.setFile p none) (fun _ s => s) (.storage context)

/-- `std::fs::rename`. -/
def rename (p q : BlobPath) : AssetProg Unit :=
  Prog.op (fun s => (s.files p).map fun b => (s.setFile q (some b)).setFile p none) (fun _ s => s)
    (.storage "promote asset blob")

end BlobPath

/-- `promote_staged_asset_blob`. -/
def promoteStagedAssetBlob (staged final : BlobPath) (replaceExisting : Bool) : AssetProg Unit := do
  if ← final.isFile then
    if replaceExisting then
      final.remove "remove stale asset blob before promote"
      staged.rename final
    else Prog.throw (.storage "asset blob appeared before metadata commit")
  else staged.rename final

/-- `cleanup_failed_staged_asset_blob`: errors are ignored. -/
def cleanupFailedStagedAssetBlob (staged final : BlobPath) (promoted : Bool) : AssetProg Unit := do
  let _ ← (staged.remove "remove staged asset blob").attempt
  if promoted then
    let _ ← (final.remove "remove asset blob").attempt
    pure ()
  else pure ()

/-! ### Database operations -/

/-- A read of a file or the database: it can fail, and changes nothing. -/
def ioRead (context : String) : AssetProg Unit := Prog.op some (fun _ s => s) (.storage context)

/-- A statement inside a transaction: it can fail, and changes nothing before the commit. -/
def sqlStatement (context : String) : AssetProg Unit :=
  Prog.op some (fun _ s => s) (.storage context)

/-- What a statement makes of the table inside a transaction; `none` for a constraint violation. -/
def sqlInsert (t : Option (Table AssetRow)) (context : String) : AssetProg (Table AssetRow) := do
  sqlStatement context
  match t with
  | none => Prog.throw (.storage context)
  | some t => pure t

/-- `COMMIT`, or a statement outside a transaction. One that is cut may be durable or not. -/
def sqlCommit (t : Table AssetRow) (context : String) : AssetProg Unit :=
  Prog.op (fun s => some (s.setAssets t)) (fun n s => if n = 0 then s else s.setAssets t)
    (.storage context)

/-! ### `store_asset` -/

structure AssetBlobPayload where
  bytes : List UInt8
  encryptionAlg : String
  encryptionNonce : Option (List UInt8)
  encryptedSizeBytes : Option ℕ

/-- `build_asset_blob_payload`. -/
def buildAssetBlobPayload (key : Option Aead) (nonce : Option XNonce) (plaintext : List UInt8)
    (sha256 : String) : Except Error AssetBlobPayload :=
  match key with
  | none => .ok ⟨plaintext, assetBlobPlaintextAlg, none, none⟩
  | some key =>
    (encryptAssetBlob key nonce plaintext sha256 plaintext.length).map fun (ciphertext, nonce) =>
      ⟨ciphertext, assetBlobEncryptionAlg, some nonce.1, some ciphertext.length⟩

/-- `enforce_asset_quota`, given the measured size of the database and the blobs. -/
def enforceAssetQuota (quotaBytes : Option ℕ) (currentSize assetSize : ℕ) : Except Error Unit :=
  match quotaBytes with
  | none => .ok ()
  | some quota => Result.rejectIf (quota < saturatingAddU64 currentSize assetSize)
    (.forbidden "quota exceeded")

def normalizeOptionalText (value : String) : Option String :=
  let value := Text.trim value
  if value = "" then none else some value

/-- A `StoreAsset` command: the source file and its bytes, the request, and what the clock, the
random number generator and the measured sizes come to while it runs. -/
structure StoreAsset where
  path : String
  content : Option (List UInt8)
  filename : Option String
  mimeType : Option String
  sizeBytes : Option ℕ
  sha256 : Option String
  source : Option String
  auditPrincipal : Option String
  assetId : String
  stagingId : String
  nonce : Option XNonce
  nowMs : Int
  quotaBytes : Option ℕ
  currentSize : ℕ

structure StoredAssetReport where
  assetId : String
  sha256 : String
  mimeType : String
  filename : Option String
  sizeBytes : ℕ
  storagePath : String
  deduped : Bool
  deriving DecidableEq, Repr

/-- The row of an asset that is new. -/
def newAssetRow (c : StoreAsset) (content : List UInt8) (sha256 storagePath : String)
    (blob : AssetBlobPayload) : AssetRow where
  assetId := c.assetId
  sha256
  mimeType := (c.mimeType.bind normalizeOptionalText).getD "application/octet-stream"
  filename := c.filename.bind normalizeOptionalText
  sizeBytes := content.length
  storagePath
  source := c.source.bind normalizeOptionalText
  status := .active
  createdByPrincipal := c.auditPrincipal
  createdAtMs := c.nowMs
  updatedAtMs := c.nowMs
  encryptionAlg := blob.encryptionAlg
  encryptionNonce := blob.encryptionNonce
  encryptedSizeBytes := blob.encryptedSizeBytes

/-- `UPDATE assets SET status = 'active', encryption_alg = ?, ...`. -/
def healRow (blob : AssetBlobPayload) (nowMs : Int) (r : AssetRow) : AssetRow :=
  { r with
    status := .active, encryptionAlg := blob.encryptionAlg, encryptionNonce := blob.encryptionNonce
    encryptedSizeBytes := blob.encryptedSizeBytes, updatedAtMs := nowMs }

def setStatus (status : AssetStatus) (nowMs : Int) (r : AssetRow) : AssetRow :=
  { r with status, updatedAtMs := nowMs }

theorem healRow_clash (blob : AssetBlobPayload) (nowMs : Int) (a b : AssetRow) :
    Keyed.clash (healRow blob nowMs a) b = Keyed.clash a b := rfl

theorem setStatus_clash (status : AssetStatus) (nowMs : Int) (a b : AssetRow) :
    Keyed.clash (setStatus status nowMs a) b = Keyed.clash a b := rfl

/-- The end of a transaction whose blob is in place. -/
def commitBlobAndRow (staged final : BlobPath) (assets : Table AssetRow) : AssetProg Unit := do
  match ← (sqlCommit assets "store_asset: COMMIT").attempt with
  | .error e =>
    cleanupFailedStagedAssetBlob staged final true
    Prog.throw e
  | .ok _ => pure ()

/-- The transaction of a command, which replaces the blob before its commit. -/
def storeBlobAndRow (staged final : BlobPath) (replaceExisting : Bool)
    (transaction : AssetProg (Table AssetRow)) : AssetProg Unit := do
  let promoted ← (do
    let assets ← transaction
    promoteStagedAssetBlob staged final replaceExisting
    pure assets : AssetProg (Table AssetRow)).attempt
  match promoted with
  | .error e =>
    cleanupFailedStagedAssetBlob staged final false
    Prog.throw e
  | .ok assets => commitBlobAndRow staged final assets

section Commands

variable (sha256 : List UInt8 → String) (key : Option Aead)

def checkExpectedSize (actualSize : ℕ) : Option ℕ → Except Error Unit
  | none => .ok ()
  | some expected => Result.rejectIf (expected ≠ actualSize)
      (.invalidInput s!"asset size mismatch: expected {expected} bytes, got {actualSize}")

def checkExpectedSha256 (actualSha : String) : Option String → Except Error Unit
  | none => .ok ()
  | some expected => do
    let expected ← normalizeSha256Hex expected
    Result.rejectIf (expected ≠ actualSha)
      (.invalidInput s!"asset sha256 mismatch: expected {expected}, got {actualSha}")

/-- The checks before the lookup: the bytes of the source file and their checksum. -/
def checkAssetSource (c : StoreAsset) : Except Error (List UInt8 × String) :=
  match c.content with
  | none => .error (.notFound s!"asset source file not found: {c.path}")
  | some content => do
    checkExpectedSize content.length c.sizeBytes
    Result.rejectIf (content.length = 0) (.invalidInput "asset source file must not be empty")
    checkExpectedSha256 (sha256 content) c.sha256
    pure (content, sha256 content)

/-- `build_asset_blob_payload`, the quota and `stage_asset_blob_bytes`. -/
def stageAssetBlob (c : StoreAsset) (content : List UInt8) (actualSha storagePath : String) :
    AssetProg AssetBlobPayload := do
  ioRead "read asset blob"
  let blob ← Prog.ofExcept (buildAssetBlobPayload key c.nonce content actualSha)
  Prog.ofExcept (enforceAssetQuota c.quotaBytes c.currentSize blob.bytes.length)
  (BlobPath.tmp storagePath c.stagingId).write blob.bytes
  pure blob

/-- The transaction of the heal path, up to the rename. -/
def healTransaction (existing : AssetRow) (blob : AssetBlobPayload) (nowMs : Int) :
    AssetProg (Table AssetRow) := do
  sqlStatement "store_asset: BEGIN heal existing asset"
  let assets ← Prog.get (·.assets)
  sqlStatement "store_asset: heal existing asset blob"
  pure (assets.updateWhere (·.assetId = existing.assetId) (healRow blob nowMs) (healRow_clash _ _))

/-- The transaction of a new asset, up to the rename. -/
def insertTransaction (row : AssetRow) : AssetProg (Table AssetRow) := do
  sqlStatement "store_asset: BEGIN IMMEDIATE"
  let assets ← Prog.get (·.assets)
  let assets ← sqlInsert (assets.insert? row) "store_asset: INSERT assets"
  sqlStatement "insert audit row"
  pure assets

/-- The branch of `handle_store_asset_from_path` for a row whose blob is missing. -/
def healAsset (c : StoreAsset) (content : List UInt8) (actualSha : String) (existing : AssetRow) :
    AssetProg Unit := do
  if existing.encryptionAlg ≠ assetBlobPlaintextAlg ∧ key = none then
    Prog.throw (.storage "store_asset: cannot heal encrypted asset blob without tenant key")
  else
    let blob ← stageAssetBlob key c content actualSha existing.storagePath
    storeBlobAndRow (.tmp existing.storagePath c.stagingId) (.final existing.storagePath) false
      (healTransaction existing blob c.nowMs)

/-- The branch for a row that is there. -/
def dedupAsset (c : StoreAsset) (content : List UInt8) (actualSha : String) (existing : AssetRow) :
    AssetProg StoredAssetReport := do
  if !(← (BlobPath.final existing.storagePath).isFile) then
    healAsset key c content actualSha existing
  else if existing.status = .deleted then
    let assets ← Prog.get (·.assets)
    sqlCommit (assets.updateWhere (·.assetId = existing.assetId) (setStatus .active c.nowMs)
      (setStatus_clash _ _))
      "store_asset: reactivate asset"
  pure ⟨existing.assetId, actualSha, existing.mimeType, existing.filename, existing.sizeBytes,
    existing.storagePath, true⟩

/-- The branch for an asset that is new. -/
def freshAsset (c : StoreAsset) (content : List UInt8) (actualSha storagePath : String) :
    AssetProg StoredAssetReport := do
  let blob ← stageAssetBlob key c content actualSha storagePath
  let row := newAssetRow c content actualSha storagePath blob
  storeBlobAndRow (.tmp storagePath c.stagingId) (.final storagePath) true (insertTransaction row)
  pure ⟨row.assetId, actualSha, row.mimeType, row.filename, row.sizeBytes, storagePath, false⟩

/-- `handle_store_asset_from_path`. -/
def handleStoreAssetFromPath (c : StoreAsset) : AssetProg StoredAssetReport := do
  ioRead "open asset source"
  let (content, actualSha) ← Prog.ofExcept (checkAssetSource sha256 c)
  let storagePath ← Prog.ofExcept (assetBlobPaths actualSha)
  ioRead "store_asset: lookup by sha256"
  match ← Prog.get (·.assets.find? (·.sha256 = actualSha)) with
  | some existing => dedupAsset key c content actualSha existing
  | none => freshAsset key c content actualSha storagePath

end Commands

/-! ### `forget_asset` -/

/-- A `ForgetAsset` command, with the links of the asset that it counts. -/
structure ForgetAsset where
  assetId : String
  nowMs : Int
  documentLinks : ℕ
  memoryAttachments : ℕ

structure ForgetAssetReport where
  assetId : String
  blobDeleted : Bool
  alreadyDeleted : Bool
  documentLinks : ℕ
  memoryAttachments : ℕ
  deriving DecidableEq, Repr

/-- The transaction of `handle_forget_asset`. -/
def markDeleted (c : ForgetAsset) : AssetProg Unit := do
  sqlStatement "forget_asset: BEGIN IMMEDIATE"
  sqlStatement "forget_asset: UPDATE status"
  sqlStatement "insert audit row"
  let assets ← Prog.get (·.assets)
  sqlCommit (assets.updateWhere (fun r => r.assetId = c.assetId && r.status ≠ .deleted)
    (setStatus .deleted c.nowMs) (setStatus_clash _ _)) "forget_asset: COMMIT"

/-- `handle_forget_asset`. -/
def handleForgetAsset (c : ForgetAsset) : AssetProg ForgetAssetReport := do
  ioRead "forget_asset: lookup asset"
  match ← Prog.get (·.assets.find? (·.assetId = c.assetId)) with
  | none => Prog.throw (.notFound s!"asset_id {c.assetId} not found in assets")
  | some row =>
    Prog.ofExcept (safeAssetStoragePath row.storagePath)
    ioRead "forget_asset: count document links"
    ioRead "forget_asset: count memory attachments"
    let blobDeleted ← (BlobPath.final row.storagePath).isFile
    if blobDeleted then
      (BlobPath.final row.storagePath).remove "forget_asset: remove asset blob"
    markDeleted c
    pure ⟨c.assetId, blobDeleted, row.status = .deleted, c.documentLinks, c.memoryAttachments⟩

end Solo
