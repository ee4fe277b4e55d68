import Solo.Backup.Swap

/-!
# Assets through a backup and back

What `packageAssetBlob` takes, `stageAssetBlob` takes again, so a restore puts exactly the blobs of
the assets that are not deleted under their storage paths, and a blob that is not as its row says
makes one of the two fail before a live file changes. A blob that is too long for a SQLite value is
not packaged at all, and a restore does not ask whether an asset has a packaged blob: it takes those
there are (`roundTrip_not_exact`). `assets_roundTrip` has the law for blobs that fit.
-/

namespace Solo

open RestoreDir

namespace Backup

variable {T : Type} (key : Aead) (sha256 : List UInt8 → String)

/-- The stored file is there, under a safe path, and has the size and the bytes that the row
says. -/
structure SoundBlob (files : AssetFiles) (r : AssetRow) (sha : String) (stored : List UInt8) :
    Prop where
  path : safeAssetStoragePath r.storagePath sha = .ok ()
  file : files r.storagePath = some stored
  size : expectedStoredSize r.encryptionAlg r.sizeBytes r.encryptedSizeBytes = .ok stored.length
  content : ∃ b, decodeAssetBlob sha256 (some key) r.encryptionAlg r.encryptionNonce sha r.sizeBytes
    stored = .ok b

/-- An asset with a blob as its row says; the writer stores checksums in lower case. -/
def WellFormed (files : AssetFiles) (r : AssetRow) : Prop :=
  normalizeSha256Hex r.sha256 = .ok r.sha256 ∧
    ∃ stored, SoundBlob key sha256 files r r.sha256 stored

/-- The row that packaging makes of an asset. -/
def packaged (files : AssetFiles) (r : AssetRow) : BackupAssetRow :=
  ⟨r.storagePath, r.sha256, ((files r.storagePath).getD []).length, r.encryptionAlg,
    assetBackupVersion, (files r.storagePath).getD []⟩

/-- The blob fits in a value of SQLite. -/
def Fits (inserts : BackupAssetRow → Bool) (files : AssetFiles) (r : AssetRow) : Prop :=
  ((files r.storagePath).getD []).length ≤ i32Max ∧ inserts (packaged files r) = true

/-- The bytes of a backup row are as it says, and decode under its asset if they are encrypted. -/
def SoundRow (assets : Option (Table AssetRow)) (r : BackupAssetRow) : Prop :=
  ∃ sha, normalizeSha256Hex r.sha256 = .ok sha ∧ safeAssetStoragePath r.storagePath sha = .ok () ∧
    r.content.length = r.sizeBytes ∧
    if r.encryptionAlg = assetBlobPlaintextAlg then sha256 r.content = sha
    else ∃ size nonce b, assetPlaintextMetadataForRestore assets r.storagePath sha =
      .ok (size, nonce) ∧
      decodeAssetBlob sha256 (some key) r.encryptionAlg nonce sha size r.content = .ok b

/-- The blobs of the assets that are not deleted, at their storage paths, and nothing else. -/
def Reproduces (assets : Table AssetRow) (files dir : AssetFiles) : Prop :=
  ∀ p b, dir p = some b ↔ (∃ r ∈ assets, r.status ≠ .deleted ∧ r.storagePath = p) ∧ files p = some b

variable {key sha256} {inserts : BackupAssetRow → Bool} {files : AssetFiles} {r : AssetRow}
  {row : BackupAssetRow}
variable {sha : String} {stored : List UInt8} {n : ℕ}

theorem checkCopied_eq_ok {verify : Bool} {u : Unit} : checkCopied sha256 stored sha n verify =
    .ok u ↔ stored.length = n ∧ (verify = true → sha256 stored = sha) := by
  unfold checkCopied
  split
  case isTrue h => simp [h]
  case isFalse h =>
    rw [not_not] at h
    split
    case isTrue h' => simp [h'.1, h'.2]
    case isFalse h' =>
      exact ⟨fun _ => ⟨h, fun hv => by_contra fun hne => h' ⟨hv, hne⟩⟩, fun _ => rfl⟩

theorem verifyStoredAssetBlobFile_eq_ok {alg : String} {nonce : Option (List UInt8)} {size : ℕ}
    {u : Unit} : verifyStoredAssetBlobFile key sha256 alg nonce sha size n stored = .ok u ↔
      stored.length = n ∧ ∃ b, decodeAssetBlob sha256 (some key) alg nonce sha size stored =
      .ok b := by
  unfold verifyStoredAssetBlobFile
  split
  case isTrue h => simp [h]
  case isFalse h =>
    rw [Result.bind_eq_ok]
    simp [not_not.1 h]

theorem packageAssetBlob_sound (h : packageAssetBlob key sha256 inserts files r = .ok row) :
    ∃ sha stored, normalizeSha256Hex r.sha256 = .ok sha ∧
    SoundBlob key sha256 files r sha stored := by
  unfold packageAssetBlob at h
  simp only [Result.bind_eq_ok] at h
  obtain ⟨sha, hsha, size, hsize, h⟩ := h
  split at h
  · cases h
  simp only [Result.bind_eq_ok] at h
  obtain ⟨u, hpath, h⟩ := h
  cases hf : files r.storagePath with
  | none => simp [hf] at h
  | some stored =>
    simp only [hf] at h
    split at h
    · cases h
    next hlen =>
      rw [Result.bind_eq_ok] at h
      obtain ⟨u', hver, -⟩ := h
      obtain ⟨rfl, hcontent⟩ := verifyStoredAssetBlobFile_eq_ok.1 hver
      exact ⟨sha, stored, hsha, hpath, hf, hsize, hcontent⟩

/-- A plaintext blob hashes to its checksum. -/
theorem sha256_of_decode {b : List UInt8} {nonce : Option (List UInt8)}
    (hsha : normalizeSha256Hex sha = .ok sha)
    (h : decodeAssetBlob sha256 (some key) assetBlobPlaintextAlg nonce sha n stored = .ok b) :
    sha256 stored = sha := by
  have hplain : decryptAssetBlob (some key) assetBlobPlaintextAlg nonce sha n stored =
      .ok stored := by
    unfold decryptAssetBlob
    exact if_pos (by decide)
  have hlower : String.ofList (Text.toAsciiLowercase (Text.trimList sha.toList)) = sha := by
    unfold normalizeSha256Hex at hsha
    dsimp only at hsha
    split at hsha
    · cases hsha
    · exact Except.ok.inj hsha
  unfold decodeAssetBlob at h
  rw [hplain] at h
  obtain ⟨plaintext, hsame, h⟩ := Result.bind_eq_ok.1 h
  obtain rfl := Except.ok.inj hsame
  obtain ⟨u, hvalid, -⟩ := Result.bind_eq_ok.1 h
  unfold validatePlaintext at hvalid
  split at hvalid
  · cases hvalid
  split at hvalid
  · cases hvalid
  next hne => rw [not_not.1 hne, hlower]

theorem SoundBlob.checkCopied {stored : List UInt8}
    (hs : SoundBlob key sha256 files r r.sha256 stored)
    (hsha : normalizeSha256Hex r.sha256 = .ok r.sha256) :
    checkCopied sha256 stored r.sha256 stored.length (r.encryptionAlg = assetBlobPlaintextAlg) =
      .ok () := by
  refine checkCopied_eq_ok.2 ⟨rfl, fun halg => ?_⟩
  obtain ⟨b, hb⟩ := hs.content
  rw [of_decide_eq_true halg] at hb
  exact sha256_of_decode hsha hb

theorem packageAssetBlob_eq_ok (h : WellFormed key sha256 files r) (hfit : Fits inserts files r) :
    packageAssetBlob key sha256 inserts files r = .ok (packaged files r) := by
  obtain ⟨hsha, stored, hs⟩ := h
  obtain ⟨hmax, hins⟩ := hfit
  have hverify : verifyStoredAssetBlobFile key sha256 r.encryptionAlg r.encryptionNonce r.sha256
      r.sizeBytes
      stored.length stored = .ok () := verifyStoredAssetBlobFile_eq_ok.2 ⟨rfl, hs.content⟩
  have hcopied := hs.checkCopied hsha
  simp only [packaged, hs.file, Option.getD_some] at hmax hins ⊢
  unfold packageAssetBlob
  simp only [hsha, hs.size, hs.path, hs.file, bind, Except.bind]
  rw [if_neg (by omega)]
  simp only [ne_eq, not_true_eq_false, if_false, hverify, hins, Bool.not_true, Bool.false_eq_true,
    hcopied]
  rfl

theorem packageAssetBlob_tooLarge (hsha : normalizeSha256Hex r.sha256 = .ok sha)
    (hsize : expectedStoredSize r.encryptionAlg r.sizeBytes r.encryptedSizeBytes = .ok n)
    (hn : i32Max < n) : packageAssetBlob key sha256 inserts files r =
      .error (.invalidInput "asset is too large for SQLite zeroblob packaging") := by
  unfold packageAssetBlob
  simp only [hsha, hsize, bind, Except.bind, if_pos hn]

theorem mem_activeAssets {t : Table AssetRow} : r ∈ activeAssets t ↔ r ∈ t ∧
    r.status ≠ .deleted := by
  rw [activeAssets, List.mem_insertionSort, List.mem_filter, decide_eq_true_eq]
  rfl

/-- Every asset that is not deleted is packaged, or packaging fails. -/
theorem packaged_of_packageAssetBlobs {img : DbImage T} {t : Table AssetRow}
    (ht : img.assets = some t)
    {out : DbImage T × AssetBackupReport}
    (h : packageAssetBlobs key sha256 inserts files img = .ok out) (hr : r ∈ t)
    (hs : r.status ≠ .deleted) : ∃ row, packageAssetBlob key sha256 inserts files r = .ok row := by
  unfold packageAssetBlobs at h
  simp only [ht] at h
  obtain ⟨rows, hrows, -⟩ := Result.bind_eq_ok.1 h
  exact Result.ok_of_mapM_eq_ok hrows (mem_activeAssets.2 ⟨hr, hs⟩)

theorem packageAssetBlobs_eq_ok {img : DbImage T} {t : Table AssetRow} (ht : img.assets = some t)
    (h : ∀ r ∈ t, r.status ≠ .deleted → WellFormed key sha256 files r ∧ Fits inserts files r) :
    packageAssetBlobs key sha256 inserts files img =
      .ok ({ img with assetBlobs := some ((activeAssets t).map (packaged files)) },
        reportOf ((activeAssets t).map (packaged files))) := by
  have hrows : (activeAssets t).mapM (packageAssetBlob key sha256 inserts files) =
      .ok ((activeAssets t).map (packaged files)) := by
    refine Result.mapM_eq_ok_map fun r hr => ?_
    obtain ⟨hrt, hs⟩ := mem_activeAssets.1 hr
    obtain ⟨hwf, hfit⟩ := h r hrt hs
    exact packageAssetBlob_eq_ok hwf hfit
  unfold packageAssetBlobs
  simp only [ht, hrows]
  rfl

/-! ### Staging -/

theorem stageAssetBlob_sound {assets : Option (Table AssetRow)} {dir dir' : AssetFiles}
    (h : stageAssetBlob key sha256 assets dir row = .ok dir') : SoundRow key sha256 assets row := by
  unfold stageAssetBlob at h
  obtain ⟨sha, hsha, h⟩ := Result.bind_eq_ok.1 h
  obtain ⟨u, hpath, h⟩ := Result.bind_eq_ok.1 h
  obtain ⟨u', hcopied, h⟩ := Result.bind_eq_ok.1 h
  obtain ⟨hlen, hplain⟩ := checkCopied_eq_ok.1 hcopied
  refine ⟨sha, hsha, hpath, hlen, ?_⟩
  split
  case isTrue halg => exact hplain (decide_eq_true halg)
  case isFalse halg =>
    rw [if_pos halg] at h
    obtain ⟨⟨size, nonce⟩, hmeta, h⟩ := Result.bind_eq_ok.1 h
    obtain ⟨u'', hverify, -⟩ := Result.bind_eq_ok.1 h
    obtain ⟨-, b, hb⟩ := verifyStoredAssetBlobFile_eq_ok.1 hverify
    exact ⟨size, nonce, b, hmeta, hb⟩

/-- A bad row makes staging fail. -/
theorem stageAssetBlobs_error {img : DbImage T} {rows : List BackupAssetRow}
    (hrows : img.assetBlobs = some rows)
    (hrow : row ∈ rows) (hbad : ¬ SoundRow key sha256 img.assets row) :
    ∃ e, stageAssetBlobs key sha256 img = .error e := by
  cases h : stageAssetBlobs key sha256 img with
  | error e => exact ⟨e, rfl⟩
  | ok staged =>
    unfold stageAssetBlobs at h
    simp only [hrows] at h
    obtain ⟨dir, hdir, -⟩ := Result.bind_eq_ok.1 h
    have hmem : row ∈ stagingOrder rows := List.mem_insertionSort _ |>.2 hrow
    obtain ⟨s₁, s₂, hok⟩ := Result.ok_of_foldlM_eq_ok hdir hmem
    exact absurd (stageAssetBlob_sound hok) hbad

/-- The metadata of a packaged asset is that of its row. -/
theorem assetPlaintextMetadataForRestore_eq_ok {t : Table AssetRow} (hr : r ∈ t) :
    assetPlaintextMetadataForRestore (some t) r.storagePath r.sha256 =
    .ok (r.sizeBytes, r.encryptionNonce) := by
  unfold assetPlaintextMetadataForRestore
  cases hf : t.find? fun x => x.storagePath = r.storagePath && x.sha256 = r.sha256 with
  | none =>
    have := Table.find?_eq_none.1 hf r hr
    simp at this
  | some x =>
    obtain ⟨hx, hp⟩ := Table.find?_mem hf
    simp only [Bool.and_eq_true, decide_eq_true_eq] at hp
    obtain rfl : x = r := Table.eq_of_clash hx hr (by simp [Keyed.clash, hp.1])
    simp only [hf]

/-- The directory with the file of a row. -/
def putBlob (dir : AssetFiles) (row : BackupAssetRow) : AssetFiles :=
  Function.update dir row.storagePath (some row.content)

theorem stageAssetBlob_packaged {t : Table AssetRow} (hr : r ∈ t)
    (h : WellFormed key sha256 files r) (dir : AssetFiles) :
    stageAssetBlob key sha256 (some t) dir (packaged files r) =
      .ok (putBlob dir (packaged files r)) := by
  obtain ⟨hsha, stored, hs⟩ := h
  have hcopied := hs.checkCopied hsha
  have hverify : verifyStoredAssetBlobFile key sha256 r.encryptionAlg r.encryptionNonce r.sha256
      r.sizeBytes
      stored.length stored = .ok () := verifyStoredAssetBlobFile_eq_ok.2 ⟨rfl, hs.content⟩
  unfold stageAssetBlob
  simp only [packaged, hs.file, Option.getD_some, hsha, hs.path, hcopied, bind, Except.bind]
  split
  · simp only [assetPlaintextMetadataForRestore_eq_ok hr, hverify]
    rfl
  · rfl

/-- The directory after staging rows that hold the files' own bytes. -/
theorem foldl_putBlob_apply {rows : List BackupAssetRow}
    (h : ∀ row ∈ rows, files row.storagePath = some row.content) (dir : AssetFiles) (p : String) :
    rows.foldl putBlob dir p = if ∃ row ∈ rows, row.storagePath = p then files p else dir p := by
  induction rows generalizing dir with
  | nil => simp
  | cons row rows ih =>
    rw [List.foldl_cons, ih fun x hx => h x (List.mem_cons_of_mem _ hx)]
    by_cases hlater : ∃ x ∈ rows, x.storagePath = p
    · obtain ⟨x, hx, hp⟩ := hlater
      rw [if_pos ⟨x, hx, hp⟩, if_pos ⟨x, List.mem_cons_of_mem _ hx, hp⟩]
    · rw [if_neg hlater]
      rw [putBlob]
      by_cases hp : row.storagePath = p
      · subst hp
        rw [Function.update_self, if_pos ⟨row, List.mem_cons_self, rfl⟩, h row List.mem_cons_self]
      · rw [Function.update_of_ne (Ne.symm hp), if_neg]
        rintro ⟨x, hx, hxp⟩
        rcases List.mem_cons.1 hx with rfl | hx
        · exact hp hxp
        · exact hlater ⟨x, hx, hxp⟩

/-- Staging a packaged library reproduces its blobs. -/
theorem stageAssetBlobs_packaged {img : DbImage T} {t : Table AssetRow} (ht : img.assets = some t)
    (himg : img.assetBlobs = some ((activeAssets t).map (packaged files)))
    (h : ∀ r ∈ t, r.status ≠ .deleted → WellFormed key sha256 files r) :
    ∃ dir, stageAssetBlobs key sha256 img = .ok (some dir) ∧ Reproduces t files dir := by
  have hrow {row : BackupAssetRow}
      (hmem : row ∈ stagingOrder ((activeAssets t).map (packaged files))) :
      ∃ r ∈ t, r.status ≠ .deleted ∧ packaged files r = row := by
    rw [stagingOrder, List.mem_insertionSort] at hmem
    obtain ⟨r, hr, rfl⟩ := List.mem_map.1 hmem
    obtain ⟨hrt, hs⟩ := mem_activeAssets.1 hr
    exact ⟨r, hrt, hs, rfl⟩
  have hfold : (stagingOrder ((activeAssets t).map (packaged files))).foldlM
      (stageAssetBlob key sha256 (some t))
      (fun _ => none) =
      .ok ((stagingOrder ((activeAssets t).map (packaged files))).foldl putBlob fun _ => none) := by
    refine Result.foldlM_eq_ok_foldl (fun row hmem dir => ?_) _
    obtain ⟨r, hrt, hs, rfl⟩ := hrow hmem
    exact stageAssetBlob_packaged hrt (h r hrt hs) dir
  refine ⟨(stagingOrder ((activeAssets t).map (packaged files))).foldl putBlob fun _ => none, ?_,
    fun p b => ?_⟩
  · unfold stageAssetBlobs
    simp only [himg, ht, hfold]
    rfl
  · have hfiles : ∀ row ∈ stagingOrder ((activeAssets t).map (packaged files)),
        files row.storagePath = some row.content := by
      intro row hmem
      obtain ⟨r, hrt, hs, rfl⟩ := hrow hmem
      obtain ⟨-, stored, hsound⟩ := h r hrt hs
      simp only [packaged, hsound.file, Option.getD_some]
    rw [foldl_putBlob_apply hfiles]
    by_cases hex : ∃ row ∈ stagingOrder ((activeAssets t).map (packaged files)), row.storagePath = p
    · rw [if_pos hex]
      obtain ⟨row, hmem, rfl⟩ := hex
      obtain ⟨r, hrt, hs, rfl⟩ := hrow hmem
      exact ⟨fun hb => ⟨⟨r, hrt, hs, rfl⟩, hb⟩, fun hb => hb.2⟩
    · rw [if_neg hex]
      refine ⟨fun hb => by simp at hb, ?_⟩
      rintro ⟨⟨r, hrt, hs, hp⟩, -⟩
      refine absurd ⟨packaged files r, ?_, hp⟩ hex
      rw [stagingOrder, List.mem_insertionSort]
      exact List.mem_map_of_mem (mem_activeAssets.2 ⟨hrt, hs⟩)

theorem stageAssetBlob_eq_ok {assets : Option (Table AssetRow)} {dir dir' : AssetFiles}
    (h : stageAssetBlob key sha256 assets dir row = .ok dir') : dir' = putBlob dir row := by
  unfold stageAssetBlob at h
  obtain ⟨sha, -, h⟩ := Result.bind_eq_ok.1 h
  obtain ⟨u, -, h⟩ := Result.bind_eq_ok.1 h
  obtain ⟨u', -, h⟩ := Result.bind_eq_ok.1 h
  split at h
  · obtain ⟨⟨size, nonce⟩, -, h⟩ := Result.bind_eq_ok.1 h
    obtain ⟨u'', -, h⟩ := Result.bind_eq_ok.1 h
    exact (Except.ok.inj h).symm
  · exact (Except.ok.inj h).symm

/-- The directory holds the blobs of the rows, the last one where two have a path, and nothing
else. -/
def Unpacked (rows : List BackupAssetRow) (dir : AssetFiles) : Prop :=
  (∀ p b, dir p = some b → ∃ row ∈ rows, row.storagePath = p ∧ row.content = b) ∧
    ∀ row ∈ rows, (dir row.storagePath).isSome = true

/-- Staging does not look at the assets that have no row. -/
theorem stageAssetBlobs_unpacked {img : DbImage T} {rows : List BackupAssetRow}
    {staged : Option AssetFiles}
    (hrows : img.assetBlobs = some rows) (h : stageAssetBlobs key sha256 img = .ok staged) :
    ∃ dir, staged = some dir ∧ Unpacked rows dir := by
  have hfold (rows : List BackupAssetRow) : ∀ dir dir' : AssetFiles,
      rows.foldlM (stageAssetBlob key sha256 img.assets) dir = .ok dir' →
      (∀ p b, dir' p = some b → (∃ row ∈ rows, row.storagePath = p ∧ row.content = b) ∨
        dir p = some b) ∧
      (∀ p, (dir p).isSome = true ∨ (∃ row ∈ rows, row.storagePath = p) →
        (dir' p).isSome = true) := by
    induction rows with
    | nil =>
      intro dir dir' h
      obtain rfl := Except.ok.inj h
      exact ⟨fun p b hb => .inr hb, fun p hp => by simpa using hp⟩
    | cons row rows ih =>
      intro dir dir' h
      obtain ⟨dir₁, hrow, hrest⟩ := Result.foldlM_cons_eq_ok.1 h
      obtain rfl := stageAssetBlob_eq_ok hrow
      obtain ⟨honly, hall⟩ := ih _ _ hrest
      refine ⟨fun p b hb => ?_, fun p hp => hall p ?_⟩
      · rcases honly p b hb with ⟨x, hx, hp⟩ | hput
        · exact .inl ⟨x, List.mem_cons_of_mem _ hx, hp⟩
        · by_cases hp : row.storagePath = p
          · rw [putBlob, ← hp, Function.update_self] at hput
            exact .inl ⟨row, List.mem_cons_self, hp, Option.some.inj hput⟩
          · rw [putBlob, Function.update_of_ne (Ne.symm hp)] at hput
            exact .inr hput
      · by_cases hrowp : row.storagePath = p
        · exact .inl (by rw [putBlob, ← hrowp, Function.update_self]; rfl)
        · rcases hp with hp | ⟨x, hx, hxp⟩
          · exact .inl (by rwa [putBlob, Function.update_of_ne (Ne.symm hrowp)])
          · refine .inr ⟨x, (List.mem_cons.1 hx).resolve_left fun heq => hrowp (heq ▸ hxp), hxp⟩
  unfold stageAssetBlobs at h
  simp only [hrows] at h
  obtain ⟨dir, hdir, h⟩ := Result.bind_eq_ok.1 h
  obtain ⟨honly, hall⟩ := hfold _ _ _ hdir
  refine ⟨dir, (Except.ok.inj h).symm, fun p b hb => ?_,
    fun row hrow => hall _ (.inr ⟨row, ?_, rfl⟩)⟩
  · rcases honly p b hb with ⟨row, hrow, hp⟩ | hnone
    · exact ⟨row, (List.mem_insertionSort _).1 hrow, hp⟩
    · cases hnone
  · exact (List.mem_insertionSort _).2 hrow

/-! ### A restore that nothing disturbs -/

/-- The source can be restored over the live database. -/
def Restorable (src : RestoreSource T) (force : Bool) (family : DbFamily T) : Prop :=
  src.isFile = true ∧ src.opens = true ∧ src.integrity = "ok" ∧ ((family .db).isSome → force = true)

/-- The number of operations that are left. -/
def opsLeft (src : RestoreSource T) : RestorePc → ℕ
  | .check => (src.image.assetBlobs.getD []).length + 19
  | .removeStaging => (src.image.assetBlobs.getD []).length + 18
  | .copy => (src.image.assetBlobs.getD []).length + 17
  | .strip => (src.image.assetBlobs.getD []).length + 16
  | .createAssetStaging => (src.image.assetBlobs.getD []).length + 15
  | .stageBlob rest => rest.length + 14
  | .fsync => 13
  | .retire todo => todo.length + 9
  | .promoteDb => 8
  | .createSnapshotDir => 7
  | .assetsAside => 6
  | .assetsIn => 5
  | .dropOldAssets => 4
  | .dropRetired => 3
  | .stat => 2
  | .audit => 1
  | _ => 0

/-- The restore has met no error and will meet none. -/
def OnCourse (key : Aead) (sha256 : List UInt8 → String) (src : RestoreSource T) (force : Bool)
    (d : RestoreDir T) : Prop :=
  match d.pc with
  | .check => Restorable src force d.family
  | .stageBlob rest => ∃ dir,
    rest.foldlM (stageAssetBlob key sha256 src.image.assets) (d.stagedAssets.getD fun _ => none) =
    .ok dir
  | .discard _ | .assetsBack _ | .removePromoted _ | .unretire _ _ | .failed _ | .crashed => False
  | _ => True

theorem OnCourse.carryOut {src : RestoreSource T} {force : Bool} {auditRow : T → T}
    {d : RestoreDir T} {staged : Option AssetFiles} (h : OnCourse key sha256 src force d)
    (hstage : stageAssetBlobs key sha256 src.image = .ok staged) :
    (∃ report, d.pc = .done report) ∨
    OnCourse key sha256 src force (d.carryOut key sha256 src force auditRow) ∧
      opsLeft src (d.carryOut key sha256 src force auditRow).pc < opsLeft src d.pc := by
  unfold OnCourse at h
  unfold RestoreDir.carryOut
  cases hpc : d.pc with
  | check =>
    simp only [hpc] at h
    obtain ⟨hfile, hopens, hint, hforce⟩ := h
    have hcheck : d.check src force = d.goto .removeStaging := by
      unfold RestoreDir.check
      rw [hfile, hopens, if_neg (by decide), if_neg (by decide), if_neg (not_not.2 hint),
        if_neg fun hd => hd.2 (hforce hd.1)]
    right
    simp only [hcheck]
    exact ⟨trivial, Nat.lt_succ_self _⟩
  | createAssetStaging =>
    right
    cases hrows : src.image.assetBlobs with
    | none => simp [OnCourse, goto, opsLeft]
    | some rows =>
      unfold stageAssetBlobs at hstage
      simp only [hrows] at hstage
      obtain ⟨dir, hdir, -⟩ := Result.bind_eq_ok.1 hstage
      refine ⟨⟨dir, hdir⟩, ?_⟩
      simp [goto, opsLeft, hrows, stagingOrder]
  | stageBlob rest =>
    simp only [hpc] at h
    right
    cases rest with
    | nil => simp [OnCourse, goto, opsLeft]
    | cons r rest =>
      obtain ⟨dir, hdir⟩ := h
      obtain ⟨dir', hr, hrest⟩ := Result.foldlM_cons_eq_ok.1 hdir
      simp only [hr]
      exact ⟨⟨dir, hrest⟩, by simp [goto, opsLeft]⟩
  | retire todo =>
    right
    cases todo with
    | nil => simp [OnCourse, goto, opsLeft]
    | cons p rest =>
      dsimp only
      cases d.family p with
      | none => simp [OnCourse, goto, opsLeft]
      | some f => simp [OnCourse, goto, opsLeft]
  | promoteDb =>
    right
    by_cases hassets : d.stagedAssets.isSome = true <;> simp [hassets, OnCourse, goto, opsLeft]
  | done report => exact .inl ⟨report, rfl⟩
  | discard _ | assetsBack _ | removePromoted _ | unretire _ _ | failed _ | crashed =>
    simp [hpc] at h
  | removeStaging | copy | strip | fsync | createSnapshotDir | assetsAside | assetsIn
  | dropOldAssets | dropRetired | stat
  | audit => simp [OnCourse, goto, opsLeft]

/-- Where each operation is carried out and the assets can be staged, the restore returns `Ok`. -/
theorem OnCourse.done (src : RestoreSource T) (force : Bool) (auditRow : T → T)
    {staged : Option AssetFiles} (hstage : stageAssetBlobs key sha256 src.image = .ok staged) :
    ∀ (n : ℕ) (d : RestoreDir T), OnCourse key sha256 src force d → opsLeft src d.pc = n →
      ∃ k report, (Run.run (step key sha256 src force auditRow) d (List.replicate k .ok)).pc =
      .done report := by
  intro n
  induction n using Nat.strong_induction_on with
  | h n ih =>
    intro d h hn
    have hstep : (∃ report, d.pc = .done report) ∨
        OnCourse key sha256 src force (d.carryOut key sha256 src force auditRow) ∧
          opsLeft src (d.carryOut key sha256 src force auditRow).pc < opsLeft src d.pc :=
          h.carryOut hstage
    rcases hstep with ⟨report, hdone⟩ | ⟨hnext, hless⟩
    · exact ⟨0, report, hdone⟩
    · obtain ⟨k, report, hk⟩ := ih _ (hn ▸ hless) _ hnext rfl
      exact ⟨k + 1, report, hk⟩

end Backup

open Backup

/-- The blobs of a library go through a backup and back: packaging succeeds, and a restore puts the
blobs of the assets that are not deleted under their paths, and nothing else; stripping leaves the
other tables; and a blob that is not as its row says makes the backup fail, or the restore before it
touches a live file. Of any other backup a restore that returns `Ok` makes the packaged blobs the
live assets, whichever assets have none. -/
theorem assets_roundTrip {T : Type} (key : Aead) (sha256 : List UInt8 → String)
    (inserts : BackupAssetRow → Bool) :
    (∀ (img : DbImage T) (t : Table AssetRow) (files : AssetFiles), img.assets = some t →
      (∀ r ∈ t, r.status ≠ .deleted → WellFormed key sha256 files r ∧ Fits inserts files r) →
      ∃ backup report, packageAssetBlobs key sha256 inserts files img = .ok (backup, report) ∧
        stripAssetBlobs backup = { img with assetBlobs := none } ∧
        ∃ dir, stageAssetBlobs key sha256 backup = .ok (some dir) ∧ Reproduces t files dir ∧
          ∀ (src : RestoreSource T) force auditRow family assets staging hnsw, src.image = backup →
            (∀ es report,
              (Run.run (step key sha256 src force auditRow) (start family assets staging hnsw)
                es).pc = .done report →
              (Run.run (step key sha256 src force auditRow) (start family assets staging hnsw)
                es).assets = some dir) ∧
            (Restorable src force family → ∃ k report, (Run.run (step key sha256 src force auditRow)
              (start family assets staging hnsw) (List.replicate k .ok)).pc = .done report)) ∧
    (∀ (img : DbImage T) (t : Table AssetRow) (files : AssetFiles) (r : AssetRow),
      img.assets = some t → r ∈ t → r.status ≠ .deleted →
      (¬ ∃ sha stored, normalizeSha256Hex r.sha256 = .ok sha ∧
        SoundBlob key sha256 files r sha stored) →
      ∃ e, packageAssetBlobs key sha256 inserts files img = .error e) ∧
    (∀ (src : RestoreSource T) (rows : List BackupAssetRow) (row : BackupAssetRow),
      src.image.assetBlobs = some rows → row ∈ rows → ¬ SoundRow key sha256 src.image.assets row →
      ∀ force auditRow family assets staging hnsw es,
        (Run.run (step key sha256 src force auditRow) (start family assets staging hnsw)
          es).family = family ∧
        (Run.run (step key sha256 src force auditRow) (start family assets staging hnsw)
          es).assets = assets ∧
        ∀ report, (Run.run (step key sha256 src force auditRow) (start family assets staging hnsw)
          es).pc ≠ .done report) ∧
    ∀ (src : RestoreSource T) (rows : List BackupAssetRow), src.image.assetBlobs = some rows →
      ∀ force auditRow family assets staging hnsw es report,
        (Run.run (step key sha256 src force auditRow) (start family assets staging hnsw) es).pc =
        .done report →
        ∃ dir, (Run.run (step key sha256 src force auditRow) (start family assets staging hnsw)
          es).assets = some dir ∧ Unpacked rows dir := by
  refine ⟨fun img t files ht h => ?_, fun img t files r ht hr hs hbad => ?_,
    fun src rows row hrows hrow hbad => ?_,
    fun src rows hrows force auditRow family assets staging hnsw es report hdone => ?_⟩
  · have hstaged : ∃ dir, stageAssetBlobs key sha256
        { img with assetBlobs := some ((activeAssets t).map (packaged files)) } = .ok (some dir) ∧
          Reproduces t files dir := stageAssetBlobs_packaged ht rfl fun r hr hs => (h r hr hs).1
    obtain ⟨dir, hdir, hrep⟩ := hstaged
    refine ⟨_, _, packageAssetBlobs_eq_ok ht h, rfl, dir, hdir, hrep, ?_⟩
    intro src force auditRow family assets staging hnsw himg
    have hstage : stageAssetBlobs key sha256 src.image = .ok (some dir) := by rw [himg]; exact hdir
    refine ⟨fun es report hdone => ?_, fun hok => OnCourse.done _ _ _ hstage _ _ hok rfl⟩
    obtain ⟨-, hassets⟩ := restored_of_done hdone
    rw [restoredAssets_eq hstage] at hassets
    exact (Except.ok.inj hassets).symm
  · cases hpack : packageAssetBlobs key sha256 inserts files img with
    | error e => exact ⟨e, rfl⟩
    | ok out =>
      obtain ⟨row, hrow⟩ := packaged_of_packageAssetBlobs ht hpack hr hs
      exact absurd (packageAssetBlob_sound hrow) hbad
  · obtain ⟨e, he⟩ := stageAssetBlobs_error hrows hrow hbad
    exact fun force auditRow family assets staging hnsw es =>
      untouched_of_badAsset he family assets staging hnsw es
  · cases hstage : stageAssetBlobs key sha256 src.image with
    | error e =>
      exact absurd hdone ((untouched_of_badAsset hstage family assets staging hnsw es).2.2 report)
    | ok staged =>
      obtain ⟨dir, rfl, hdir⟩ := stageAssetBlobs_unpacked hrows hstage
      obtain ⟨-, hassets⟩ := restored_of_done hdone
      rw [restoredAssets_eq hstage] at hassets
      exact ⟨dir, (Except.ok.inj hassets).symm, hdir⟩

/-! ### Two libraries with one asset -/

namespace OneAsset

/-- A plaintext asset with the digest of `HiAsset`. -/
def row (size : ℕ) : AssetRow :=
  ⟨"a1", HiAsset.sha256 [], "text/plain", none, size, "assets/blobs/8f/" ++ HiAsset.sha256 [], none,
    .active, none, 1, 1, assetBlobPlaintextAlg, none, none⟩

def assets (size : ℕ) : Table AssetRow := ⟨[row size], List.pairwise_singleton _ _⟩

def files (content : List UInt8) : AssetFiles :=
  Function.update (fun _ => none) (row 0).storagePath (some content)

def image (size : ℕ) : DbImage String := ⟨"library", some (assets size), none⟩

theorem wellFormed (content : List UInt8) : WellFormed HiAsset.key HiAsset.sha256 (files content)
    (row content.length) := by
  have hpath : Backup.safeAssetStoragePath (row 0).storagePath (HiAsset.sha256 []) = .ok () := by
    decide +kernel
  have hsize : expectedStoredSize assetBlobPlaintextAlg content.length none =
      .ok content.length := by
    unfold expectedStoredSize
    rw [normalizeEncryptionAlg_plaintext, if_pos rfl]
  have hdecode : decodeAssetBlob HiAsset.sha256 (some HiAsset.key) assetBlobPlaintextAlg none
      (HiAsset.sha256 []) content.length content = .ok content := by
    have hplain : decryptAssetBlob (some HiAsset.key) assetBlobPlaintextAlg none (HiAsset.sha256 [])
        content.length content = .ok content := by
      unfold decryptAssetBlob
      rw [normalizeEncryptionAlg_plaintext, if_pos rfl]
    have hvalid : validatePlaintext HiAsset.sha256 content (HiAsset.sha256 []) content.length =
        .ok () :=
      validatePlaintext_self HiAsset.isHexDigest
    unfold decodeAssetBlob
    simp only [hplain, bind, Except.bind, hvalid]
    rfl
  exact ⟨(HiAsset.isHexDigest []).normalize, content,
    { path := hpath, file := Function.update_self _ _ _, size := hsize, content := ⟨content, hdecode⟩ }⟩

theorem eq_row {size : ℕ} {r : AssetRow} (hr : r ∈ assets size) : r = row size :=
  List.mem_singleton.1 hr

end OneAsset

theorem assets_roundTrip_oneAsset : ∃ backup report dir,
    packageAssetBlobs HiAsset.key HiAsset.sha256 (fun _ => true) (OneAsset.files HiAsset.bytes)
    (OneAsset.image 2) =
        .ok (backup, report) ∧
      dir (OneAsset.row 2).storagePath = some HiAsset.bytes ∧
      ∃ k, (Run.run (step HiAsset.key HiAsset.sha256 ⟨true, true, "ok", backup⟩ false id)
        (start (fun _ => none) none none .empty) (List.replicate k .ok)).assets = some dir := by
  have hall (r : AssetRow) (hr : r ∈ OneAsset.assets 2) (_ : r.status ≠ .deleted) :
      WellFormed HiAsset.key HiAsset.sha256 (OneAsset.files HiAsset.bytes) r ∧
        Fits (fun _ => true) (OneAsset.files HiAsset.bytes) r := by
    rw [OneAsset.eq_row hr]
    exact ⟨OneAsset.wellFormed HiAsset.bytes, by decide +kernel, rfl⟩
  obtain ⟨backup, report, hpack, -, dir, -, hrep, hrestore⟩ :=
    (assets_roundTrip HiAsset.key HiAsset.sha256 fun _ => true).1 (OneAsset.image 2)
      (OneAsset.assets 2) (OneAsset.files HiAsset.bytes) rfl hall
  obtain ⟨hassets, hdone⟩ :=
    hrestore ⟨true, true, "ok", backup⟩ false id (fun _ => none) none none .empty rfl
  obtain ⟨k, restored, hk⟩ := hdone ⟨rfl, rfl, rfl, by simp⟩
  have hblob : dir (OneAsset.row 2).storagePath = some HiAsset.bytes :=
    (hrep _ _).2 ⟨⟨OneAsset.row 2, List.mem_singleton_self _, by decide, rfl⟩,
      Function.update_self _ _ _⟩
  exact ⟨backup, report, dir, hpack, hblob, k, hassets _ restored hk⟩

/-- A blob of two gibibytes is as its row says, and is not packaged. -/
theorem longBlob_error :
    (∀ r ∈ OneAsset.assets (2 ^ 31),
      WellFormed HiAsset.key HiAsset.sha256 (OneAsset.files (List.replicate (2 ^ 31) 0)) r) ∧
      ∃ e, packageAssetBlobs HiAsset.key HiAsset.sha256 (fun _ => true)
      (OneAsset.files (List.replicate (2 ^ 31) 0))
        (OneAsset.image (2 ^ 31)) = .error e := by
  have hwf := OneAsset.wellFormed (List.replicate (2 ^ 31) 0)
  rw [List.length_replicate] at hwf
  refine ⟨fun r hr => by rw [OneAsset.eq_row hr]; exact hwf, ?_⟩
  obtain ⟨hsha, stored, hs⟩ := hwf
  have hlength : stored.length = 2 ^ 31 := by
    have hfile : OneAsset.files (List.replicate (2 ^ 31) 0) (OneAsset.row 0).storagePath =
        some stored := hs.file
    rw [OneAsset.files, Function.update_self] at hfile
    rw [← Option.some.inj hfile, List.length_replicate]
  have hlarge : i32Max < stored.length := by
    rw [hlength]
    decide
  cases hpack : packageAssetBlobs HiAsset.key HiAsset.sha256 (fun _ => true)
    (OneAsset.files (List.replicate (2 ^ 31) 0))
      (OneAsset.image (2 ^ 31)) with
  | error e => exact ⟨e, rfl⟩
  | ok out =>
    obtain ⟨row, hrow⟩ :=
      packaged_of_packageAssetBlobs rfl hpack (List.mem_singleton_self _) (by decide)
    rw [packageAssetBlob_tooLarge hsha hs.size hlarge] at hrow
    cases hrow

/-- A backup with an asset and no packaged blob. -/
def missingBlob : RestoreSource String :=
  ⟨true, true, "ok", { OneAsset.image 2 with assetBlobs := some [] }⟩

/-- The round trip and the refusals are not the whole story: a library with a blob of two gibibytes
is not packaged, and a backup that lacks the blob of an asset is restored, over the live file of the
asset. -/
theorem roundTrip_not_exact :
    ((∀ r ∈ OneAsset.assets (2 ^ 31),
        WellFormed HiAsset.key HiAsset.sha256 (OneAsset.files (List.replicate (2 ^ 31) 0)) r) ∧
      ∃ e, packageAssetBlobs HiAsset.key HiAsset.sha256 (fun _ => true)
      (OneAsset.files (List.replicate (2 ^ 31) 0))
        (OneAsset.image (2 ^ 31)) = .error e) ∧
    OneAsset.row 2 ∈ OneAsset.assets 2 ∧ OneAsset.files HiAsset.bytes (OneAsset.row 2).storagePath =
    some HiAsset.bytes ∧
    ∃ k report dir, (Run.run (step HiAsset.key HiAsset.sha256 missingBlob true id)
        (start (fun _ => none) (some (OneAsset.files HiAsset.bytes)) none .empty)
          (List.replicate k .ok)).pc = .done report ∧
      (Run.run (step HiAsset.key HiAsset.sha256 missingBlob true id)
        (start (fun _ => none) (some (OneAsset.files HiAsset.bytes)) none .empty)
          (List.replicate k .ok)).assets = some dir ∧ ∀ p, dir p = none := by
  have hstage : stageAssetBlobs HiAsset.key HiAsset.sha256 missingBlob.image =
      .ok (some fun _ => none) := by rfl
  obtain ⟨k, report, hdone⟩ := OnCourse.done missingBlob true id hstage _
    (start (fun _ => none) (some (OneAsset.files HiAsset.bytes)) none .empty)
    ⟨rfl, rfl, rfl, fun _ => rfl⟩ rfl
  obtain ⟨-, hassets⟩ := restored_of_done hdone
  rw [restoredAssets_eq hstage] at hassets
  exact ⟨longBlob_error, List.mem_singleton_self _, Function.update_self _ _ _,
    k, report, fun _ => none, hdone, (Except.ok.inj hassets).symm, fun _ => rfl⟩

end Solo
