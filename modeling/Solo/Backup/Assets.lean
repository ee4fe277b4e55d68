import Mathlib.Data.List.Sort
import Solo.Asset.Store

/-!
# Assets in a backup (`backup.rs`)

A backup is a copy of the database with one table more: the stored blob of every asset that is not
deleted, checked against its row. A restore checks each blob again while it writes it below a
staging directory, which then takes the place of the live `assets` directory, and drops the table.
-/

namespace Solo

/-- The files below a snapshot directory by their storage path. -/
abbrev AssetFiles := String → Option (List UInt8)

structure BackupAssetRow where
  storagePath : String
  sha256 : String
  sizeBytes : ℕ
  encryptionAlg : String
  backupVersion : ℕ
  content : List UInt8
  deriving DecidableEq

/-- What the database files hold: `assets`, the backup-only table, and the other tables. -/
structure DbImage (T : Type) where
  tables : T
  assets : Option (Table AssetRow)
  assetBlobs : Option (List BackupAssetRow)

structure AssetBackupReport where
  assetFiles : ℕ
  assetBytes : ℕ
  deriving DecidableEq

namespace Backup

def assetBackupVersion : ℕ := 2

/-- The bound of `ZeroBlob`. -/
def i32Max : ℕ := 2147483647

variable {T : Type} (key : Aead) (sha256 : List UInt8 → String)

/-- `expected_stored_size` -/
def expectedStoredSize (encryptionAlg : String) (plaintextSize : ℕ) (encryptedSize : Option ℕ) :
    Except Error ℕ :=
  if normalizeEncryptionAlg encryptionAlg = assetBlobPlaintextAlg then .ok plaintextSize
  else if normalizeEncryptionAlg encryptionAlg = assetBlobEncryptionAlg then
    match encryptedSize with
    | none => .error (.storage "encrypted asset blob is missing encrypted_size_bytes")
    | some n => .ok n
  else .error (.storage "unsupported asset blob encryption_alg")

/-- `safe_asset_storage_path`, as far as it can fail. -/
def safeAssetStoragePath (storagePath expectedSha256 : String) : Except Error Unit :=
  if Text.startsWith storagePath.toList "/" then
    .error (.storage s!"asset storage_path must be relative: {Text.debug storagePath}")
  else if (pathComponents storagePath).any fun part => part = "." || part = ".." then
    .error (.storage
      s!"asset storage_path must contain only normal relative components: {Text.debug storagePath}")
  else
    match pathComponents storagePath with
    | ["assets", "blobs", part, name] => do
      let sha ← normalizeSha256Hex expectedSha256
      if part ≠ String.ofList (sha.toList.take 2) ∨ name ≠ sha then
        .error (.storage s!"asset storage_path must match sha256: {Text.debug storagePath}")
      else .ok ()
    | _ => .error (.storage
        s!"asset storage_path must use assets/blobs/<prefix>/<sha256>: {Text.debug storagePath}")

/-- `verify_stored_asset_blob_file` on the bytes of the file. -/
def verifyStoredAssetBlobFile (encryptionAlg : String) (encryptionNonce : Option (List UInt8))
    (plaintextSha256 : String)
    (plaintextSize expectedStoredSize : ℕ) (stored : List UInt8) : Except Error Unit := do
  if stored.length ≠ expectedStoredSize then .error (.storage "asset blob size mismatch")
  else
    let _ ← decodeAssetBlob sha256 (some key) encryptionAlg encryptionNonce plaintextSha256
        plaintextSize stored
    pure ()

/-- The checks of `copy_file_into_blob` and `copy_blob_to_file` on the bytes copied. -/
def checkCopied (content : List UInt8) (expectedSha256 : String) (expectedSize : ℕ)
    (verifySha256 : Bool) : Except Error Unit :=
  if content.length ≠ expectedSize then .error (.storage "asset blob copy size mismatch")
  else if verifySha256 ∧
    sha256 content ≠ expectedSha256 then .error (.storage "asset blob sha256 mismatch")
  else .ok ()

/-! ### Packaging -/

/-- One asset of `package_asset_blobs_into_connection`; `inserts` is whether SQLite takes a row of
its length. -/
def packageAssetBlob (inserts : BackupAssetRow → Bool) (files : AssetFiles) (r : AssetRow) :
    Except Error BackupAssetRow := do
  let sha ← normalizeSha256Hex r.sha256
  let size ← expectedStoredSize r.encryptionAlg r.sizeBytes r.encryptedSizeBytes
  if i32Max < size then .error (.invalidInput "asset is too large for SQLite zeroblob packaging")
  else
    safeAssetStoragePath r.storagePath sha
    match files r.storagePath with
    | none => .error (.storage "stat asset blob")
    | some stored =>
      if stored.length ≠ size then .error (.storage "asset blob size mismatch")
      else
        verifyStoredAssetBlobFile key sha256 r.encryptionAlg r.encryptionNonce sha r.sizeBytes size
          stored
        let row : BackupAssetRow :=
          ⟨r.storagePath, sha, size, r.encryptionAlg, assetBackupVersion, stored⟩
        if !inserts row then .error (.storage "insert asset backup row")
        else
          checkCopied sha256 stored sha size (r.encryptionAlg = assetBlobPlaintextAlg)
          pure row

/-- `saturating_add` of the report's fields. -/
def AssetBackupReport.addRow (report : AssetBackupReport) (row : BackupAssetRow) :
    AssetBackupReport :=
  ⟨min (report.assetFiles + 1) (2 ^ 32 - 1), saturatingAddU64 report.assetBytes row.sizeBytes⟩

def reportOf (rows : List BackupAssetRow) : AssetBackupReport :=
  rows.foldl AssetBackupReport.addRow ⟨0, 0⟩

/-- `WHERE status <> 'deleted' ORDER BY storage_path` -/
def activeAssets (assets : Table AssetRow) : List AssetRow :=
  (assets.rows.filter fun r => r.status ≠ .deleted).insertionSort fun a b => a.storagePath ≤
    b.storagePath

/-- `package_asset_blobs_into_backup` on the copy of the database. -/
def packageAssetBlobs (inserts : BackupAssetRow → Bool) (files : AssetFiles) (img : DbImage T) :
    Except Error (DbImage T × AssetBackupReport) := do
  match img.assets with
  | none => pure (img, ⟨0, 0⟩)
  | some assets =>
    let rows ← (activeAssets assets).mapM (packageAssetBlob key sha256 inserts files)
    pure ({ img with assetBlobs := some rows }, reportOf rows)

/-! ### Restoring -/

/-- `asset_plaintext_metadata_for_restore` -/
def assetPlaintextMetadataForRestore (assets : Option (Table AssetRow)) (storagePath sha : String) :
    Except Error (ℕ × Option (List UInt8)) :=
  match assets with
  | none =>
    .error (.storage s!"encrypted backup asset {storagePath} is missing asset encryption metadata")
  | some t =>
    match t.find? fun r => r.storagePath = storagePath && r.sha256 = sha with
    | none => .error (.storage s!"encrypted backup asset {storagePath} has no matching assets row")
    | some r => .ok (r.sizeBytes, r.encryptionNonce)

/-- One row of `stage_asset_blobs_from_connection`: the staging directory with its file. -/
def stageAssetBlob (assets : Option (Table AssetRow)) (dir : AssetFiles) (r : BackupAssetRow) :
    Except Error AssetFiles := do
  let sha ← normalizeSha256Hex r.sha256
  safeAssetStoragePath r.storagePath sha
  checkCopied sha256 r.content sha r.sizeBytes (r.encryptionAlg = assetBlobPlaintextAlg)
  if r.encryptionAlg ≠ assetBlobPlaintextAlg then
    let (plaintextSize, nonce) ← assetPlaintextMetadataForRestore assets r.storagePath sha
    verifyStoredAssetBlobFile key sha256 r.encryptionAlg nonce sha plaintextSize r.sizeBytes
      r.content
    pure (Function.update dir r.storagePath (some r.content))
  else pure (Function.update dir r.storagePath (some r.content))

/-- `ORDER BY storage_path` -/
def stagingOrder (rows : List BackupAssetRow) : List BackupAssetRow :=
  rows.insertionSort fun a b => a.storagePath ≤ b.storagePath

/-- `stage_asset_blobs_from_backup`: `none` for a backup without the table. -/
def stageAssetBlobs (img : DbImage T) : Except Error (Option AssetFiles) := do
  match img.assetBlobs with
  | none => pure none
  | some rows =>
    let dir ← (stagingOrder rows).foldlM (stageAssetBlob key sha256 img.assets) fun _ => none
    pure (some dir)

/-- `strip_asset_blobs_from_backup_db` -/
def stripAssetBlobs (img : DbImage T) : DbImage T := { img with assetBlobs := none }

end Backup

end Solo
