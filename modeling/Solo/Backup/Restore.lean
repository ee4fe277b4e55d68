import Solo.Backup.Assets
import Solo.Hnsw.Snapshot

/-!
# Restoring a library (`library_backup.rs`)

`restore_library` prepares the database and the assets beside the live files, moves the three files
of the live database aside one by one, renames the staged database into place, then the live
`assets` directory aside and the staged one into place, and at the end removes what was moved aside.
Each file operation is one step; an error in the middle of the swap is rolled back, a crash is not.

The files that SQLite keeps beside an open database are part of its family; the audit row at the end
is one transaction on it.
-/

namespace Solo

/-- The files of a database: itself, `-wal` and `-shm`. -/
inductive DbPart
  | db | wal | shm
  deriving DecidableEq

inductive DbFile (T : Type)
  | database (img : DbImage T)
  | log (bytes : List UInt8)

abbrev DbFamily (T : Type) := DbPart → Option (DbFile T)

/-- The backup file and what opening it says. -/
structure RestoreSource (T : Type) where
  isFile : Bool
  opens : Bool
  integrity : String
  image : DbImage T

structure RestoreReport where
  assets : AssetBackupReport
  deriving DecidableEq

/-- `<dest>.new`; a copy that was cut off is torn. -/
inductive StagingFile (T : Type)
  | torn
  | image (img : DbImage T)

/-- The next operation of `restore_library`. -/
inductive RestorePc
  | check
  | removeStaging
  | copy
  | strip
  | createAssetStaging
  | stageBlob (rest : List BackupAssetRow)
  /-- Staging the assets failed; `remove_dir_all` of their directory. -/
  | discard (e : Error)
  | fsync
  | retire (todo : List DbPart)
  | promoteDb
  | createSnapshotDir
  | assetsAside
  | assetsIn
  /-- The rollback of `replace_assets_dir`. -/
  | assetsBack (e : Error)
  /-- `rollback_promoted_db` -/
  | removePromoted (e : Error)
  /-- `RetiredDbFamily::restore` -/
  | unretire (todo : List DbPart) (e : Error)
  | dropOldAssets
  /-- `RetiredDbFamily::remove` -/
  | dropRetired
  | stat
  | audit
  | done (report : RestoreReport)
  | failed (e : Error)
  | crashed

/-- The live files, what restore puts beside them, and the snapshots of the vector index. -/
structure RestoreDir (T : Type) where
  family : DbFamily T
  assets : Option AssetFiles
  staging : Option (StagingFile T)
  stagedAssets : Option AssetFiles
  retired : DbFamily T
  oldAssets : Option AssetFiles
  hnsw : Dir HnswDump
  pc : RestorePc

inductive RestoreEvent
  /-- The next operation is carried out. -/
  | ok
  /-- The next operation fails. -/
  | err
  | crash
  deriving DecidableEq

namespace RestoreDir

variable {T : Type}

/-- Before a restore; a staging file may be left from an earlier one. -/
def start (family : DbFamily T) (assets : Option AssetFiles) (staging : Option (StagingFile T))
    (hnsw : Dir HnswDump) : RestoreDir T :=
  ⟨family, assets, staging, none, fun _ => none, none, hnsw, .check⟩

def goto (d : RestoreDir T) (pc : RestorePc) : RestoreDir T := { d with pc }

/-- An error after assets were staged: their directory is dropped with the value that names it. -/
def fail (d : RestoreDir T) (e : Error) : RestoreDir T :=
  { d with stagedAssets := none }.goto (.failed e)

/-- Nothing happens any more. -/
def stopped (d : RestoreDir T) : Bool :=
  match d.pc with
  | .done _ | .failed _ | .crashed => true
  | _ => false

/-- `family.restore()` goes through the moved files in reverse. -/
def unretireOrder : List DbPart := [.shm, .wal, .db]

section Step

variable (key : Aead) (sha256 : List UInt8 → String) (src : RestoreSource T) (force : Bool)
  (auditRow : T → T)

/-- The checks before anything is written. -/
def check (d : RestoreDir T) : RestoreDir T :=
  if !src.isFile then d.goto (.failed (.notFound "restore source not found"))
  else if !src.opens then
    d.goto (.failed
      (.invalidInput
        "restore: source fails to decrypt under the destination library key; refusing to restore"))
  else if src.integrity ≠
    "ok" then d.goto (.failed (.storage s!"integrity_check failed: {src.integrity}"))
  else if (d.family .db).isSome ∧ ¬ force then
    d.goto (.failed (.conflict "destination exists; pass --confirm to overwrite"))
  else d.goto .removeStaging

/-- `rename(from, to)` of a file of the live database. -/
def moveAside (d : RestoreDir T) (p : DbPart) (f : DbFile T) : RestoreDir T :=
  { d with family := Function.update d.family p none, retired := Function.update d.retired p (some f) }

def moveBack (d : RestoreDir T) (p : DbPart) (f : DbFile T) : RestoreDir T :=
  { d with family := Function.update d.family p (some f), retired := Function.update d.retired p none }

/-- The operation that `pc` stands before is carried out. -/
def carryOut (d : RestoreDir T) : RestoreDir T :=
  match d.pc with
  | .check => d.check src force
  | .removeStaging => { d with staging := none }.goto .copy
  | .copy => { d with staging := some (.image src.image) }.goto .strip
  | .strip => { d with staging := some (.image (Backup.stripAssetBlobs src.image)) }.goto
    .createAssetStaging
  | .createAssetStaging =>
    match src.image.assetBlobs with
    | none => d.goto .fsync
    | some rows => { d with stagedAssets := some fun _ => none }.goto
      (.stageBlob (Backup.stagingOrder rows))
  | .stageBlob [] => d.goto .fsync
  | .stageBlob (r :: rest) =>
    match Backup.stageAssetBlob key sha256 src.image.assets (d.stagedAssets.getD fun _ => none)
      r with
    | .ok dir => { d with stagedAssets := some dir }.goto (.stageBlob rest)
    | .error e => d.goto (.discard e)
  | .discard e => { d with stagedAssets := none }.goto (.failed e)
  | .fsync => d.goto (.retire [.db, .wal, .shm])
  | .retire [] => d.goto .promoteDb
  | .retire (p :: rest) =>
    match d.family p with
    | none => d.goto (.retire rest)
    | some f => (d.moveAside p f).goto (.retire rest)
  | .promoteDb =>
    -- a backup without the table is restored without assets
    let next := if d.stagedAssets.isSome then .createSnapshotDir else .dropRetired
    { d with
      family := Function.update d.family .db (some (.database (Backup.stripAssetBlobs src.image)))
      staging := none }.goto next
  | .createSnapshotDir => d.goto .assetsAside
  | .assetsAside => { d with assets := none, oldAssets := d.assets }.goto .assetsIn
  | .assetsIn => { d with assets := d.stagedAssets, stagedAssets := none }.goto .dropOldAssets
  | .assetsBack e =>
    match d.oldAssets with
    | none => d.goto (.removePromoted e)
    | some a => { d with assets := some a, oldAssets := none }.goto (.removePromoted e)
  | .removePromoted e => { d with family := Function.update d.family .db none }.goto
    (.unretire unretireOrder e)
  | .unretire [] e => d.fail e
  | .unretire (p :: rest) e =>
    match d.retired p with
    | none => d.goto (.unretire rest e)
    | some f => (d.moveBack p f).goto (.unretire rest e)
  | .dropOldAssets => { d with oldAssets := none }.goto .dropRetired
  | .dropRetired => { d with retired := fun _ => none }.goto .stat
  | .stat => d.goto .audit
  | .audit =>
    let db := (d.family .db).map fun f =>
      match f with
      | .database img => .database { img with tables := auditRow img.tables }
      | .log bytes => .log bytes
    { d with family := Function.update d.family .db db }.goto
      (.done ⟨Backup.reportOf (src.image.assetBlobs.getD [])⟩)
  | .done _ | .failed _ | .crashed => d

/-- The error of `restore_library` when the assets could not be promoted. -/
def swapError (cause : String) : Error :=
  .storage s!"restore asset blobs after database swap failed: {cause}; rolled back database restore"

/-- The operation that `pc` stands before fails. -/
def giveUp (d : RestoreDir T) : RestoreDir T :=
  match d.pc with
  | .check =>
    d.goto (.failed
      (.invalidInput
        "restore: source fails to decrypt under the destination library key; refusing to restore"))
  | .removeStaging =>
    match d.staging with
    | none => d.goto .copy
    | some _ => d.goto (.failed (.storage "remove pre-existing staging file"))
  | .copy => { d with staging := some .torn }.goto (.failed (.storage "copy to staging"))
  | .strip => d.goto (.failed (.storage "drop solo_backup_asset_blobs"))
  | .createAssetStaging => d.goto (.failed (.storage "create asset restore staging"))
  | .stageBlob _ => d.goto (.discard (.storage "read backup blob row"))
  -- the error of `remove_dir_all` is ignored
  | .discard e => d.goto (.failed e)
  | .fsync => d.fail (.storage "fsync staging")
  | .retire [] => d.goto .promoteDb
  | .retire (p :: rest) =>
    match d.family p with
    | none => d.goto (.retire rest)
    | some _ => d.goto (.unretire unretireOrder (.storage "move existing database component aside"))
  | .promoteDb => d.goto (.unretire unretireOrder (.storage "rename staging to dest"))
  | .createSnapshotDir => d.goto (.removePromoted (swapError "create library snapshot dir"))
  | .assetsAside =>
    match d.assets with
    | none => { d with oldAssets := none }.goto .assetsIn
    | some _ => d.goto (.removePromoted (swapError "move existing asset dir aside"))
  | .assetsIn => d.goto (.assetsBack (swapError "promote restored asset dir"))
  -- the error of the rename back is ignored
  | .assetsBack e => d.goto (.removePromoted e)
  | .removePromoted _ =>
    d.fail (.storage
      "restore asset blobs after database swap failed; database rollback also failed")
  | .unretire [] e => d.fail e
  | .unretire (p :: rest) e =>
    match d.retired p with
    | none => d.goto (.unretire rest e)
    | some _ => d.fail (.storage "restore previous database component")
  | .dropOldAssets => d.goto .dropRetired
  | .dropRetired => d.goto .stat
  | .stat => d.goto (.failed (.storage "stat dest after restore"))
  | .audit => d.goto (.failed (.storage "insert_audit_admin_row"))
  | .done _ | .failed _ | .crashed => d

def step (d : RestoreDir T) : RestoreEvent → RestoreDir T
  | .ok => d.carryOut key sha256 src force auditRow
  | .err => d.giveUp
  | .crash => if d.stopped then d else d.goto .crashed

end Step

end RestoreDir

end Solo
