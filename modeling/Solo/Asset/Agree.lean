import Solo.Asset.Store
import Solo.Lib.Run
import Mathlib.Data.Set.Function

/-!
# Asset rows and their blobs

A blob belongs to its row if it decodes, under the algorithm and the nonce of the row, to bytes with
the checksum of the row. Each command keeps this for every row, wherever it is cut, but for one
place: the heal path renames the blob with a new nonce into place before the row with that nonce is
committed.
-/

namespace Solo

open Crash

/-- The row's blob in plain text. -/
def AssetRow.decode (sha256 : List UInt8 → String) (key : Option Aead) (r : AssetRow)
    (blob : List UInt8) : Except Error (List UInt8) :=
  decodeAssetBlob sha256 key r.encryptionAlg r.encryptionNonce r.sha256 r.sizeBytes blob

/-- Sixty-four lowercase hexadecimal digits. -/
def IsHexDigest (s : String) : Prop :=
  s.toList.length = 64 ∧ ∀ c ∈ s.toList, c ∈ "0123456789abcdef".toList

theorem IsHexDigest.toLower {s : String} (h : IsHexDigest s) :
    Text.toAsciiLowercase s.toList = s.toList := by
  have hlower : ("0123456789abcdef".toList.all fun c => c.toLower == c) = true := by decide
  unfold Text.toAsciiLowercase
  conv_rhs => rw [← List.map_id s.toList]
  exact List.map_congr_left fun c hc => beq_iff_eq.1 (List.all_eq_true.1 hlower c (h.2 c hc))

theorem IsHexDigest.trim {s : String} (h : IsHexDigest s) : Text.trimList s.toList = s.toList := by
  have hspace : ("0123456789abcdef".toList.all fun c => !Text.isWhitespace c) = true := by decide
  have hkeep (cs : List Char) (hcs : ∀ c ∈ cs, c ∈ s.toList) :
      cs.dropWhile Text.isWhitespace = cs := by
    cases cs with
    | nil => rfl
    | cons c cs =>
      exact List.dropWhile_cons_of_neg
        (by simpa using List.all_eq_true.1 hspace c (h.2 c (hcs c List.mem_cons_self)))
  unfold Text.trimList Text.trimMatches
  rw [hkeep _ fun c hc => hc, hkeep _ fun c hc => List.mem_reverse.1 hc, List.reverse_reverse]

theorem IsHexDigest.normalize {s : String} (h : IsHexDigest s) : normalizeSha256Hex s = .ok s := by
  have hdigit : ("0123456789abcdef".toList.all Text.isAsciiHexdigit) = true := by decide
  unfold normalizeSha256Hex
  dsimp only
  rw [h.trim, h.toLower, if_neg, String.ofList_toList]
  rintro (hlen | hall)
  · exact hlen h.1
  · exact hall (List.all_eq_true.2 fun c hc => List.all_eq_true.1 hdigit c (h.2 c hc))

theorem normalizeEncryptionAlg_plaintext : normalizeEncryptionAlg assetBlobPlaintextAlg =
    assetBlobPlaintextAlg := by
  decide +kernel

theorem normalizeEncryptionAlg_encryption :
    normalizeEncryptionAlg assetBlobEncryptionAlg = assetBlobEncryptionAlg := by decide +kernel

theorem assetBlobEncryptionAlg_ne : assetBlobEncryptionAlg ≠ assetBlobPlaintextAlg := by
  decide +kernel

theorem encryptAssetBlob_eq_ok {key : Aead} {nonce : Option XNonce} {b c : List UInt8}
    {sha : String} {n : ℕ}
    {nonce' : XNonce} (h : encryptAssetBlob key nonce b sha n = .ok (c, nonce')) :
    key.encrypt nonce' (assetAad sha n) b = some c := by
  unfold encryptAssetBlob at h
  cases nonce with
  | none => cases h
  | some nonce =>
    dsimp only at h
    cases hc : key.encrypt nonce (assetAad sha n) b with
    | none =>
      rw [hc] at h
      cases h
    | some c' =>
      rw [hc] at h
      simp only [Except.ok.injEq, Prod.mk.injEq] at h
      obtain ⟨rfl, rfl⟩ := h
      exact hc

section Decode

variable {sha256 : List UInt8 → String} (hsha : ∀ b, IsHexDigest (sha256 b)) {key : Option Aead}
variable {nonce : Option XNonce} {b : List UInt8} {blob : AssetBlobPayload}
include hsha

theorem validatePlaintext_self : validatePlaintext sha256 b (sha256 b) b.length = .ok () := by
  unfold validatePlaintext
  rw [if_neg (by simp), (hsha b).trim, (hsha b).toLower, String.ofList_toList, if_neg (by simp)]

/-- The blob that is built decodes under the algorithm and the nonce it is built with. -/
theorem decode_buildAssetBlobPayload (h : buildAssetBlobPayload key nonce b (sha256 b) = .ok blob) :
    decodeAssetBlob sha256 key blob.encryptionAlg blob.encryptionNonce (sha256 b)
    b.length blob.bytes = .ok b := by
  have hdecrypt : decryptAssetBlob key blob.encryptionAlg blob.encryptionNonce (sha256 b)
      b.length blob.bytes = .ok b := by
    unfold decryptAssetBlob
    cases key with
    | none =>
      simp only [buildAssetBlobPayload, Except.ok.injEq] at h
      subst h
      rw [normalizeEncryptionAlg_plaintext, if_pos rfl]
    | some key =>
      obtain ⟨⟨c, n⟩, henc, rfl⟩ := Result.map_eq_ok.1 (show _ <$> _ = Except.ok blob from h)
      have hc := encryptAssetBlob_eq_ok henc
      dsimp only
      rw [normalizeEncryptionAlg_encryption, if_neg assetBlobEncryptionAlg_ne, if_pos rfl,
        dif_pos n.2, key.decrypt_encrypt n _ b c hc]
  unfold decodeAssetBlob
  rw [hdecrypt]
  show (validatePlaintext sha256 b (sha256 b) b.length >>= fun _ => pure b) = _
  rw [validatePlaintext_self hsha]
  rfl

end Decode

/-! ### What the rows say of the blobs -/

section Invariant

variable (sha256 : List UInt8 → String) (key : Option Aead)

/-- The row is about the bytes `b`, and its blob, where it exists, decodes to them. -/
structure Sound (s : AssetStore) (b : List UInt8) (r : AssetRow) : Prop where
  hash : r.sha256 = sha256 b
  size : r.sizeBytes = b.length
  decodes : ∀ blob, s.files (.final r.storagePath) = some blob → r.decode sha256 key blob = .ok b

/-- Every row, active or deleted, is sound for bytes in `S`. -/
def SoundIn (S : Set (List UInt8)) (s : AssetStore) : Prop :=
  ∀ r ∈ s.assets, ∃ b ∈ S, Sound sha256 key s b r

/-- The asset that a command reports is an active row whose blob decodes to `b`. -/
def Stored (b : List UInt8) (report : StoredAssetReport) (s : AssetStore) : Prop :=
  ∃ r ∈ s.assets, r.assetId = report.assetId ∧ r.storagePath = report.storagePath ∧
    r.status = .active ∧
    ∃ blob, s.files (.final r.storagePath) = some blob ∧ r.decode sha256 key blob = .ok b

end Invariant

/-- The rows are those of `s`, and so are the final blobs that are left. -/
structure Fewer (s s' : AssetStore) : Prop where
  assets : s'.assets = s.assets
  files : ∀ p blob, s'.files (.final p) = some blob → s.files (.final p) = some blob

/-- One final blob of `s` was replaced. -/
def BlobAt (s s' : AssetStore) (path : String) (blob : Option (List UInt8)) : Prop :=
  ∀ p, s'.files (.final p) = if p = path then blob else s.files (.final p)

theorem Fewer.refl (s : AssetStore) : Fewer s s := ⟨rfl, fun _ _ h => h⟩

theorem Fewer.trans {s₁ s₂ s₃ : AssetStore} (h : Fewer s₁ s₂) (h' : Fewer s₂ s₃) : Fewer s₁ s₃ :=
  ⟨h'.assets.trans h.assets, fun p blob hb => h.files p blob (h'.files p blob hb)⟩

theorem Fewer.setTmp (s : AssetStore) (path id : String) (o : Option (List UInt8)) :
    Fewer s (s.setFile (.tmp path id) o) := ⟨rfl, fun p blob h => by simpa using h⟩

theorem Fewer.remove (s : AssetStore) (p : BlobPath) : Fewer s (s.setFile p none) := by
  refine ⟨rfl, fun q blob h => ?_⟩
  rw [AssetStore.setFile_files] at h
  split at h
  · cases h
  · exact h

section Keep

variable {sha256 : List UInt8 → String} {key : Option Aead} {S : Set (List UInt8)}
  {s s' : AssetStore}

theorem SoundIn.fewer (hi : SoundIn sha256 key S s) (h : Fewer s s') : SoundIn sha256 key S s' := by
  intro r hr
  obtain ⟨b, hb, hs⟩ := hi r (h.assets ▸ hr)
  exact ⟨b, hb, hs.hash, hs.size, fun blob hf => hs.decodes blob (h.files _ _ hf)⟩

/-- A new status changes nothing else. -/
theorem SoundIn.setStatus (hi : SoundIn sha256 key S s) (p : AssetRow → Bool) (status : AssetStatus)
    (now : Int) :
    SoundIn sha256 key S
    (s.setAssets (s.assets.updateWhere p (Solo.setStatus status now) (setStatus_clash _ _))) := by
  intro r hr
  rw [AssetStore.setAssets_assets, Table.mem_updateWhere] at hr
  obtain ⟨r₀, hr₀, rfl⟩ := hr
  obtain ⟨b, hb, hs⟩ := hi r₀ hr₀
  refine ⟨b, hb, ?_⟩
  split
  · exact ⟨hs.hash, hs.size, hs.decodes⟩
  · exact ⟨hs.hash, hs.size, hs.decodes⟩

end Keep

/-! ### The pieces of a command -/

section Pieces

variable {s : AssetStore} {path id : String}

theorem remove_wp (p : BlobPath) (context : String) :
    (p.remove context).wp (fun _ => True) (fun _ s' => Fewer s s') (Fewer s) s := by
  unfold BlobPath.remove
  rw [Prog.wp_op]
  refine ⟨?_, fun _ _ => .refl s, fun _ _ => .refl s⟩
  cases s.files p with
  | none => exact .refl s
  | some b => exact .remove s p

/-- Whatever becomes of the cleanup, it only takes files away. -/
theorem cleanup_wp (promoted : Bool) :
    (cleanupFailedStagedAssetBlob (.tmp path id) (.final path) promoted).wp (fun _ => True)
      (fun r s' => r = .ok () ∧ Fewer s s') (Fewer s) s := by
  unfold cleanupFailedStagedAssetBlob
  rw [Prog.wp_bind, Prog.wp_attempt]
  refine Prog.wp_mono (fun _ s₁ h₁ => ?_) (fun _ h => h) (remove_wp _ _)
  cases promoted with
  | false => exact ⟨rfl, h₁⟩
  | true =>
    dsimp only
    rw [if_pos rfl, Prog.wp_bind, Prog.wp_attempt]
    exact Prog.wp_mono (fun _ s₂ h₂ => ⟨rfl, h₁.trans h₂⟩) (fun _ h₂ => h₁.trans h₂) (remove_wp _ _)

/-- Staging leaves the rows and the final blobs alone. -/
theorem stageAssetBlob_wp {key : Option Aead} {c : StoreAsset} {b : List UInt8} {sha : String} :
    (stageAssetBlob key c b sha path).wp (fun _ => True)
      (fun r s' => Fewer s s' ∧ ∀ blob, r = .ok blob →
        buildAssetBlobPayload key c.nonce b sha = .ok blob ∧
        s' = s.setFile (.tmp path c.stagingId) (some blob.bytes))
      (Fewer s) s := by
  unfold stageAssetBlob ioRead
  rw [Prog.wp_bind, Prog.wp_op]
  refine ⟨?_, fun _ _ => ⟨.refl s, by simp⟩, fun _ _ => .refl s⟩
  dsimp only
  cases hb : buildAssetBlobPayload key c.nonce b sha with
  | error e => exact ⟨.refl s, by simp⟩
  | ok blob =>
    rw [Prog.ofExcept_bind_ok]
    cases hq : enforceAssetQuota c.quotaBytes c.currentSize blob.bytes.length with
    | error e => exact ⟨.refl s, by simp⟩
    | ok _ =>
      have htorn (n : ℕ) : Fewer s (if n = 0 then s else
          s.setFile (.tmp path c.stagingId) (some (blob.bytes.take (n - 1)))) := by
        split
        · exact .refl s
        · exact .setTmp _ _ _ _
      rw [Prog.ofExcept_bind_ok, BlobPath.write, Prog.wp_bind, Prog.wp_op]
      refine ⟨⟨.setTmp _ _ _ _, ?_⟩, fun n _ => ⟨htorn n, by simp⟩, fun n _ => htorn n⟩
      rintro _ ⟨⟩
      exact ⟨rfl, rfl⟩

end Pieces

/-! ### A new asset -/

section Fresh

variable {s : AssetStore} {path id : String} {bytes : List UInt8} {t : Table AssetRow}

theorem insertTransaction_wp {row : AssetRow} :
    (insertTransaction row).wp (fun _ => True)
      (fun r s' => s' = s ∧ ∀ t, r = .ok t → s.assets.insert? row = some t) (fun s' => s' = s)
      s := by
  unfold insertTransaction sqlInsert sqlStatement
  cases hins : s.assets.insert? row with
  | none => simp [Prog.wp_bind, Prog.wp_op, hins]
  | some t => simp [Prog.wp_bind, Prog.wp_op, hins]

/-- `promote_staged_asset_blob` over whatever is there. -/
theorem promote_replace_wp (h : s.files (.tmp path id) = some bytes) :
    (promoteStagedAssetBlob (.tmp path id) (.final path) true).wp (fun _ => True)
      (fun r s' => match r with
        | .ok () => s'.assets = s.assets ∧ BlobAt s s' path (some bytes)
        | .error _ => Fewer s s')
      (Fewer s) s := by
  have hrename {s₁ : AssetStore} (h₁ : s₁.files (.tmp path id) = some bytes) (hf : Fewer s s₁)
      (hb : ∀ p, p ≠ path → s₁.files (.final p) = s.files (.final p)) :
      ((BlobPath.tmp path id).rename (.final path)).wp (fun _ => True)
        (fun r s' => match r with
          | .ok () => s'.assets = s.assets ∧ BlobAt s s' path (some bytes)
          | .error _ => Fewer s s')
        (Fewer s) s₁ := by
    rw [BlobPath.rename, Prog.wp_op]
    refine ⟨?_, fun _ _ => hf, fun _ _ => hf⟩
    rw [h₁]
    refine ⟨hf.assets, fun p => ?_⟩
    by_cases hp : p = path
    · simp [hp]
    · simp [hp, hb p hp]
  unfold promoteStagedAssetBlob BlobPath.isFile
  rw [Prog.wp_bind, Prog.wp_get]
  dsimp only
  split
  · next hfile =>
    obtain ⟨old, hold⟩ := Option.isSome_iff_exists.1 hfile
    rw [if_pos rfl, BlobPath.remove, Prog.wp_bind, Prog.wp_op]
    refine ⟨?_, fun _ _ => .refl s, fun _ _ => .refl s⟩
    rw [hold]
    refine hrename (by simpa using h) (.remove s _) fun p hp => ?_
    simp [hp]
  · exact hrename h (.refl s) fun _ _ => rfl

/-- What storing a new asset comes to: nothing but files lost; or a blob in the place of no row; or
the row and its blob, the blob possibly removed again when the commit reports an error. -/
inductive FreshOutcome (s : AssetStore) (path : String) (bytes : List UInt8) (row : AssetRow) :
    Option (Except Error Unit) → AssetStore → Prop
  | before {r s'} (failed : r ≠ some (.ok ())) (fewer :
    Fewer s s') : FreshOutcome s path bytes row r s'
  | halfway {r s' s₂ t} (failed : r ≠ some (.ok ())) (insert : s.assets.insert? row = some t)
      (assets : s₂.assets = s.assets) (blob : BlobAt s s₂ path (some bytes)) (fewer : Fewer s₂ s') :
      FreshOutcome s path bytes row r s'
  | after {r s' s₂ t} (insert : s.assets.insert? row = some t) (assets : s₂.assets = t)
      (blob : BlobAt s s₂ path (some bytes)) (fewer : Fewer s₂ s')
      (ok : r = some (.ok ()) → s' = s₂) : FreshOutcome s path bytes row r s'

theorem storeBlobAndRow_insert_wp {row : AssetRow} (h : s.files (.tmp path id) = some bytes) :
    (storeBlobAndRow (.tmp path id) (.final path) true (insertTransaction row)).wp (fun _ => True)
      (fun r s' => FreshOutcome s path bytes row (some r) s') (FreshOutcome s path bytes row none)
      s := by
  unfold storeBlobAndRow
  rw [Prog.wp_bind, Prog.wp_attempt, Prog.wp_bind]
  have hgive {s₁ : AssetStore} (hf : Fewer s s₁) (e : Error) :
      (cleanupFailedStagedAssetBlob (.tmp path id) (.final path) false >>= fun _ => Prog.throw e).wp
        (fun _ => True) (fun r s' => FreshOutcome s path bytes row (some r) s')
        (FreshOutcome s path bytes row none)
        s₁ := by
    rw [Prog.wp_bind]
    refine Prog.wp_mono ?_ (fun s₂ h₂ => .before (by simp) (hf.trans h₂)) (cleanup_wp false)
    rintro _ s₂ ⟨rfl, h₂⟩
    exact .before (by simp) (hf.trans h₂)
  refine Prog.wp_mono ?_ ?_ insertTransaction_wp
  · rintro r s₁ ⟨rfl, hins⟩
    cases r with
    | error e => exact hgive (.refl s₁) e
    | ok t =>
      have hins := hins t rfl
      dsimp only
      rw [Prog.wp_bind]
      refine Prog.wp_mono ?_ (fun s₂ h₂ => .before (by simp) h₂) (promote_replace_wp h)
      intro r s₂ hr
      cases r with
      | error e => exact hgive hr e
      | ok _ =>
        obtain ⟨ha, hb⟩ := hr
        dsimp only
        rw [Prog.wp_pure]
        dsimp only
        rw [commitBlobAndRow, Prog.wp_bind, Prog.wp_attempt, sqlCommit, Prog.wp_op]
        have hafter : BlobAt s₁ (s₂.setAssets t) path (some bytes) := hb
        refine ⟨.after hins rfl hafter (.refl _) fun _ => rfl, fun n _ => ?_, fun n _ => ?_⟩
        · dsimp only
          rw [Prog.wp_bind]
          split
          · refine Prog.wp_mono ?_ (fun s₃ h₃ => .halfway (by simp) hins ha hb h₃) (cleanup_wp true)
            rintro _ s₃ ⟨rfl, h₃⟩
            exact .halfway (by simp) hins ha hb h₃
          · refine Prog.wp_mono ?_ (fun s₃ h₃ => .after hins rfl hafter h₃ (by simp))
              (cleanup_wp true)
            rintro _ s₃ ⟨rfl, h₃⟩
            exact .after hins rfl hafter h₃ (by simp)
        · split
          · exact .halfway (by simp) hins ha hb (.refl s₂)
          · exact .after hins rfl hafter (.refl _) (by simp)
  · intro s₁ h₁
    rw [h₁]
    exact .before (by simp) (.refl s)

variable {sha256 : List UInt8 → String} {key : Option Aead} {S : Set (List UInt8)} {b : List UInt8}
  {c : StoreAsset}
variable {blob : AssetBlobPayload}

theorem newAssetRow_decode (hsha : ∀ b, IsHexDigest (sha256 b))
    (hb : buildAssetBlobPayload key c.nonce b (sha256 b) = .ok blob) :
    (newAssetRow c b (sha256 b) path blob).decode sha256 key blob.bytes = .ok b :=
  decode_buildAssetBlobPayload hsha hb

/-- A row is inserted where no row has its path, so that the blob at the path is nobody's before. -/
theorem FreshOutcome.keeps (hsha : ∀ b, IsHexDigest (sha256 b)) (hi : SoundIn sha256 key S s)
    (hbS : b ∈ S)
    (hb : buildAssetBlobPayload key c.nonce b (sha256 b) = .ok blob)
    {r : Option (Except Error Unit)} {s' : AssetStore}
    (h : FreshOutcome s path blob.bytes (newAssetRow c b (sha256 b) path blob) r s') :
    SoundIn sha256 key S s' := by
  have hother {s₂ : AssetStore} {t : Table AssetRow} {a : AssetRow}
      (hins : s.assets.insert? (newAssetRow c b (sha256 b) path blob) = some t)
      (hat : BlobAt s s₂ path (some blob.bytes)) (ha : a ∈ s.assets) :
      ∃ b ∈ S, Sound sha256 key s₂ b a := by
    obtain ⟨b', hb', hs⟩ := hi a ha
    refine ⟨b', hb', hs.hash, hs.size, fun stored hstored => hs.decodes stored ?_⟩
    have hclash := Table.insert?_fresh hins ha
    have hpath : a.storagePath ≠ path := by
      simp only [Keyed.clash, Bool.or_eq_false_iff, decide_eq_false_iff_not] at hclash
      exact hclash.2
    rwa [hat, if_neg hpath] at hstored
  cases h with
  | before _ hf => exact hi.fewer hf
  | halfway _ hins ha hat hf =>
    exact SoundIn.fewer (fun a h₂ => hother hins hat (ha ▸ h₂)) hf
  | after hins ha hat hf _ =>
    refine SoundIn.fewer (fun a h₂ => ?_) hf
    rw [ha, Table.mem_insert hins] at h₂
    rcases h₂ with h₂ | rfl
    · exact hother hins hat h₂
    · refine ⟨b, hbS, rfl, rfl, fun stored hstored => ?_⟩
      have hnew : (newAssetRow c b (sha256 b) path blob).storagePath = path := rfl
      rw [hat, if_pos hnew, Option.some.injEq] at hstored
      exact hstored ▸ newAssetRow_decode hsha hb

theorem freshAsset_wp (hsha : ∀ b, IsHexDigest (sha256 b)) (hi : SoundIn sha256 key S s)
    (hbS : b ∈ S) : (freshAsset key c b (sha256 b) path).wp (fun _ => True)
      (fun r s' => SoundIn sha256 key S s' ∧ ∀ report, r = .ok report →
        Stored sha256 key b report s')
      (SoundIn sha256 key S) s := by
  unfold freshAsset
  rw [Prog.wp_bind]
  refine Prog.wp_mono ?_ (fun _ hf => hi.fewer hf) stageAssetBlob_wp
  rintro r s₁ ⟨hf, hr⟩
  cases r with
  | error e => exact ⟨hi.fewer hf, by simp⟩
  | ok blob =>
    obtain ⟨hb, hs₁⟩ := hr blob rfl
    have hi₁ := hi.fewer hf
    have htmp : s₁.files (.tmp path c.stagingId) = some blob.bytes := by simp [hs₁]
    dsimp only
    rw [Prog.wp_bind]
    refine Prog.wp_mono ?_ (fun _ h => h.keeps hsha hi₁ hbS hb)
      (storeBlobAndRow_insert_wp htmp)
    intro r s₂ h
    cases r with
    | error e => exact ⟨h.keeps hsha hi₁ hbS hb, by simp⟩
    | ok u =>
      refine ⟨h.keeps hsha hi₁ hbS hb, ?_⟩
      rintro _ ⟨⟩
      cases h with
      | before hne _ => exact absurd rfl hne
      | halfway hne _ _ _ _ => exact absurd rfl hne
      | after hins ha hat _ hok =>
        rw [hok rfl]
        have hnew : (newAssetRow c b (sha256 b) path blob).storagePath = path := rfl
        refine ⟨newAssetRow c b (sha256 b) path blob, ?_, rfl, rfl, rfl, blob.bytes, ?_,
          newAssetRow_decode hsha hb⟩
        · rw [ha]
          exact (Table.mem_insert hins).2 (.inr rfl)
        · rw [hat, if_pos hnew]

end Fresh

/-! ### A row whose blob is missing -/

/-- The events of the heal path stop it between the rename and a durable commit, and the blob stays:
the process dies at the commit, or the commit fails and the blob is not removed again. -/
def StopsHeal (es : List Crash.Event) : Prop :=
  (∀ i < 5, Crash.Event.nth es i = .ok) ∧
    (Crash.Event.nth es 5 = .cut 0 ∨
      Crash.Event.nth es 5 = .err 0 ∧
        ((∃ n, Crash.Event.nth es 6 = .cut n) ∨ Crash.Event.nth es 7 ≠ .ok))

section Heal

variable {key : Option Aead} {c : StoreAsset} {b : List UInt8} {sha id : String} {row : AssetRow}
  {s : AssetStore}
variable {es : List Crash.Event}

def healedAssets (s : AssetStore) (row : AssetRow) (blob : AssetBlobPayload) (nowMs : Int) :
    Table AssetRow :=
  s.assets.updateWhere (·.assetId = row.assetId) (healRow blob nowMs) (healRow_clash _ _)

/-- What healing comes to: nothing but files lost; or the blob without its nonce; or the blob and
the row, the blob possibly removed again when the commit reports an error. -/
inductive HealOutcome (key : Option Aead) (c : StoreAsset) (b : List UInt8) (sha : String)
    (row : AssetRow)
    (s : AssetStore) (es : List Crash.Event) : Option (Except Error Unit) × AssetStore → Prop
  | before {r s'} (failed : r ≠ some (.ok ())) (fewer :
    Fewer s s') : HealOutcome key c b sha row s es (r, s')
  | halfway {r s' blob} (failed : r ≠ some (.ok ()))
      (built : buildAssetBlobPayload key c.nonce b sha = .ok blob)
      (quota : enforceAssetQuota c.quotaBytes c.currentSize blob.bytes.length = .ok ())
      (stops : StopsHeal es) (assets : s'.assets = s.assets)
      (blob : BlobAt s s' row.storagePath (some blob.bytes)) :
      HealOutcome key c b sha row s es (r, s')
  | after {r s' s₂ blob} (built : buildAssetBlobPayload key c.nonce b sha = .ok blob)
      (assets : s₂.assets = healedAssets s row blob c.nowMs)
      (blob : BlobAt s s₂ row.storagePath (some blob.bytes)) (fewer : Fewer s₂ s')
      (ok : r = some (.ok ()) → s' = s₂) : HealOutcome key c b sha row s es (r, s')

/-- Giving up before the rename. -/
theorem giveUp_run {s₁ : AssetStore} (hf : Fewer s s₁) (e : Error) (es' : List Crash.Event)
    (id path : String) : HealOutcome key c b sha row s es
      ((cleanupFailedStagedAssetBlob (.tmp path id) (.final path) false >>= fun _ =>
        Prog.throw e).run es' s₁) := by
  refine Prog.run_of_wp (F := fun _ => True) ?_ fun _ _ => trivial
  rw [Prog.wp_bind]
  refine Prog.wp_mono ?_ (fun s₂ h₂ => .before (by simp) (hf.trans h₂)) (cleanup_wp false)
  rintro _ s₂ ⟨rfl, h₂⟩
  exact .before (by simp) (hf.trans h₂)

/-- The commit and what follows it, once the blob is in place. -/
theorem commitHeal_run {blob : AssetBlobPayload} {s₂ : AssetStore} {es' : List Crash.Event}
    (built : buildAssetBlobPayload key c.nonce b sha = .ok blob)
    (quota : enforceAssetQuota c.quotaBytes c.currentSize blob.bytes.length = .ok ())
    (hpre : ∀ i < 5, Crash.Event.nth es i = .ok)
    (hes : ∀ i, Crash.Event.nth es' i = Crash.Event.nth es (i + 5))
    (htmp : s₂.files (.tmp row.storagePath id) = none) (ha : s₂.assets = s.assets)
    (hat : BlobAt s s₂ row.storagePath (some blob.bytes)) :
    HealOutcome key c b sha row s es
      ((commitBlobAndRow (.tmp row.storagePath id) (.final row.storagePath)
        (healedAssets s row blob c.nowMs)).run es' s₂) := by
  have hcommit : BlobAt s (s₂.setAssets (healedAssets s row blob c.nowMs))
      row.storagePath (some blob.bytes) := hat
  unfold commitBlobAndRow sqlCommit
  rw [Prog.run_attempt_op, hes]
  rcases h5 : Crash.Event.nth es 5 with _ | n | n
  · exact .after built rfl hcommit (.refl _) fun _ => rfl
  · dsimp only
    split
    · next hn =>
      -- the commit failed and is not durable: the blob has to go again
      subst hn
      unfold cleanupFailedStagedAssetBlob BlobPath.remove
      rw [Prog.bind_assoc, Prog.run_attempt_op, Crash.Event.nth_tail, hes]
      have hstop (h : (∃ n, Crash.Event.nth es 6 = .cut n) ∨ Crash.Event.nth es 7 ≠ .ok) :
          StopsHeal es := ⟨hpre, .inr ⟨h5, h⟩⟩
      have hfinal :
          HealOutcome key c b sha row s es
            ((do
              let _ ← (BlobPath.remove (.final row.storagePath) "remove asset blob").attempt
              Prog.throw (.storage "store_asset: COMMIT") : AssetProg Unit).run es'.tail.tail
                s₂) := by
        unfold BlobPath.remove
        rw [Prog.run_attempt_op, Crash.Event.nth_tail, Crash.Event.nth_tail, hes]
        rcases h7 : Crash.Event.nth es 7 with _ | m | m
        · rw [hat, if_pos rfl]
          refine .before (by simp) ⟨ha, fun p stored hp => ?_⟩
          rw [AssetStore.setFile_files, hat] at hp
          by_cases hpath : p = row.storagePath
          · simp [hpath] at hp
          · simpa [hpath] using hp
        · exact .halfway (by simp) built quota (hstop (.inr (by simp [h7]))) ha hat
        · exact .halfway (by simp) built quota (hstop (.inr (by simp [h7]))) ha hat
      rcases h6 : Crash.Event.nth es 6 with _ | m | m
      · rw [htmp]
        exact hfinal
      · exact hfinal
      · exact .halfway (by simp) built quota (hstop (.inl ⟨m, h6⟩)) ha hat
    · refine Prog.run_of_wp (F := fun _ => True) ?_ fun _ _ => trivial
      rw [Prog.wp_bind]
      refine Prog.wp_mono ?_ (fun s₃ h₃ => .after built rfl hcommit h₃ (by simp)) (cleanup_wp true)
      rintro _ s₃ ⟨rfl, h₃⟩
      exact .after built rfl hcommit h₃ (by simp)
  · dsimp only
    split
    · next hn =>
      subst hn
      exact .halfway (by simp) built quota ⟨hpre, .inl h5⟩ ha hat
    · exact .after built rfl hcommit (.refl _) (by simp)

/-- Healing, by the events that befall it. -/
theorem healAsset_run (hnone : s.files (.final row.storagePath) = none) :
    HealOutcome key c b sha row s es ((healAsset key c b sha row).run es s) := by
  unfold healAsset
  split
  · exact .before (by simp) (.refl s)
  unfold stageAssetBlob ioRead
  simp only [Prog.bind_assoc]
  rw [Prog.run_op_bind]
  rcases h0 : Crash.Event.nth es 0 with _ | n | n
  rotate_left
  · exact .before (by simp) (.refl s)
  · exact .before (by simp) (.refl s)
  dsimp only
  cases hb : buildAssetBlobPayload key c.nonce b sha with
  | error e => exact .before (by simp) (.refl s)
  | ok blob =>
    rw [Prog.ofExcept_bind_ok]
    cases hq : enforceAssetQuota c.quotaBytes c.currentSize blob.bytes.length with
    | error e => exact .before (by simp) (.refl s)
    | ok _ =>
      have htorn (n : ℕ) : Fewer s (if n = 0 then s else
          s.setFile (.tmp row.storagePath c.stagingId) (some (blob.bytes.take (n - 1)))) := by
        split
        · exact .refl s
        · exact .setTmp _ _ _ _
      rw [Prog.ofExcept_bind_ok, BlobPath.write, Prog.run_op_bind, Crash.Event.nth_tail]
      rcases h1 : Crash.Event.nth es 1 with _ | n | n
      rotate_left
      · exact .before (by simp) (htorn n)
      · exact .before (by simp) (htorn n)
      dsimp only
      have hf : Fewer s (s.setFile (.tmp row.storagePath c.stagingId) (some blob.bytes)) :=
        .setTmp _ _ _ _
      unfold storeBlobAndRow healTransaction sqlStatement
      rw [Prog.pure_bind, Prog.bind_assoc, Prog.run_attempt_op_bind, Crash.Event.nth_tail,
        Crash.Event.nth_tail]
      rcases h2 : Crash.Event.nth es 2 with _ | n | n
      rotate_left
      · exact giveUp_run hf _ _ _ _
      · exact .before (by simp) hf
      dsimp only
      simp only [Prog.bind_assoc]
      rw [Prog.run_attempt_get_bind, Prog.run_attempt_op_bind, Crash.Event.nth_tail,
        Crash.Event.nth_tail, Crash.Event.nth_tail]
      rcases h3 : Crash.Event.nth es 3 with _ | n | n
      rotate_left
      · exact giveUp_run hf _ _ _ _
      · exact .before (by simp) hf
      dsimp only
      unfold promoteStagedAssetBlob BlobPath.isFile BlobPath.rename
      simp only [Prog.bind_assoc, Prog.pure_bind]
      rw [Prog.run_attempt_get_bind]
      have hmissing : ((s.setFile (.tmp row.storagePath c.stagingId) (some blob.bytes)).files
          (.final row.storagePath)).isSome = false := by simp [hnone]
      rw [hmissing, if_neg (by simp), Prog.run_attempt_op_bind, Crash.Event.nth_tail,
        Crash.Event.nth_tail, Crash.Event.nth_tail, Crash.Event.nth_tail]
      rcases h4 : Crash.Event.nth es 4 with _ | n | n
      rotate_left
      · exact giveUp_run hf _ _ _ _
      · exact .before (by simp) hf
      have htmp : (s.setFile (.tmp row.storagePath c.stagingId) (some blob.bytes)).files
          (.tmp row.storagePath c.stagingId) = some blob.bytes := by simp
      rw [htmp]
      refine commitHeal_run hb hq (fun i hi => ?_) (fun i => by simp only [Crash.Event.nth_tail])
        (by simp) rfl fun p => ?_
      · rcases i with _ | _ | _ | _ | _ | i
        · exact h0
        · exact h1
        · exact h2
        · exact h3
        · exact h4
        · omega
      · by_cases hp : p = row.storagePath <;> simp [hp]

variable {sha256 : List UInt8 → String} {S : Set (List UInt8)} {r : Option (Except Error Unit)}
  {s' : AssetStore}

theorem healedRow_decode (hsha : ∀ b, IsHexDigest (sha256 b)) {blob : AssetBlobPayload}
    (hb : buildAssetBlobPayload key c.nonce b (sha256 b) = .ok blob) (hs : Sound sha256 key s b row)
    (now : Int) : (healRow blob now row).decode sha256 key blob.bytes = .ok b := by
  have hdecode := decode_buildAssetBlobPayload hsha hb
  rw [← hs.hash, ← hs.size] at hdecode
  exact hdecode

/-- Other rows keep their blobs, as no two rows have one path. -/
theorem Sound.other {a : AssetRow} {stored : List UInt8} {b' : List UInt8} (hrow : row ∈ s.assets)
    (ha : a ∈ s.assets)
    (hne : a ≠ row) (hat : BlobAt s s' row.storagePath (some stored))
    (hs : Sound sha256 key s b' a) : Sound sha256 key s' b' a := by
  refine ⟨hs.hash, hs.size, fun blob hblob => hs.decodes blob ?_⟩
  have hpath : a.storagePath ≠ row.storagePath := fun h =>
    hne (Table.eq_of_clash ha hrow (by simp [Keyed.clash, h]))
  rwa [hat, if_neg hpath] at hblob

/-- Healing keeps every row sound, unless it stops halfway with a blob that is not the old row's. -/
theorem HealOutcome.keeps (hsha : ∀ b, IsHexDigest (sha256 b)) (hi : SoundIn sha256 key S s)
    (hbS : b ∈ S) (hrow : row ∈ s.assets) (hs : Sound sha256 key s b row)
    (hgap : ∀ blob, buildAssetBlobPayload key c.nonce b (sha256 b) = .ok blob →
      enforceAssetQuota c.quotaBytes c.currentSize blob.bytes.length = .ok () → StopsHeal es →
      row.decode sha256 key blob.bytes = .ok b)
    (h : HealOutcome key c b (sha256 b) row s es (r, s')) : SoundIn sha256 key S s' := by
  cases h with
  | before _ hf => exact hi.fewer hf
  | halfway _ built quota stops assets hat =>
    intro a ha
    rw [assets] at ha
    obtain ⟨b', hb', ha'⟩ := hi a ha
    by_cases hne : a = row
    · subst hne
      refine ⟨b, hbS, hs.hash, hs.size, fun stored hstored => ?_⟩
      rw [hat, if_pos rfl, Option.some.injEq] at hstored
      exact hstored ▸ hgap _ built quota stops
    · exact ⟨b', hb', ha'.other hrow ha hne hat⟩
  | @after _ _ _ blob built assets hat hf _ =>
    refine SoundIn.fewer (fun a ha => ?_) hf
    rw [assets, healedAssets, Table.mem_updateWhere] at ha
    obtain ⟨a₀, ha₀, rfl⟩ := ha
    split
    · next hid =>
      have hid : a₀.assetId = row.assetId := by simpa using hid
      obtain rfl : a₀ = row := Table.eq_of_clash ha₀ hrow (by simp [Keyed.clash, hid])
      refine ⟨b, hbS, hs.hash, hs.size, fun stored hstored => ?_⟩
      have hpath : (healRow blob c.nowMs a₀).storagePath = a₀.storagePath := rfl
      rw [hpath, hat, if_pos rfl, Option.some.injEq] at hstored
      exact hstored ▸ healedRow_decode hsha built hs c.nowMs
    · next hid =>
      obtain ⟨b', hb', ha'⟩ := hi a₀ ha₀
      have hne : a₀ ≠ row := by
        rintro rfl
        simp at hid
      exact ⟨b', hb', ha'.other hrow ha₀ hne hat⟩

/-- Healing that answers `Ok` leaves the row with the blob it built. -/
theorem HealOutcome.stored (hsha : ∀ b, IsHexDigest (sha256 b)) (hrow : row ∈ s.assets)
    (hs : Sound sha256 key s b row)
    (h : HealOutcome key c b (sha256 b) row s es (some (.ok ()), s')) :
    ∃ a ∈ s'.assets, a.assetId = row.assetId ∧ a.storagePath = row.storagePath ∧
    a.status = .active ∧
      ∃ blob, s'.files (.final a.storagePath) = some blob ∧ a.decode sha256 key blob = .ok b := by
  cases h with
  | before hne _ => exact absurd rfl hne
  | halfway hne _ _ _ _ _ => exact absurd rfl hne
  | @after _ _ _ blob built assets hat _ ok =>
    rw [ok rfl]
    refine ⟨healRow blob c.nowMs row, ?_, rfl, rfl, rfl, blob.bytes, ?_,
      healedRow_decode hsha built hs c.nowMs⟩
    · rw [assets, healedAssets, Table.mem_updateWhere]
      exact ⟨row, hrow, by simp⟩
    · have hpath : (healRow blob c.nowMs row).storagePath = row.storagePath := rfl
      rw [hpath, hat, if_pos rfl]

end Heal

/-! ### Commands -/

inductive AssetCommand
  | store (c : StoreAsset)
  | forget (c : ForgetAsset)

section Runs

variable (sha256 : List UInt8 → String) (key : Option Aead)

/-- A command with what befalls its operations. -/
def AssetStore.step (s : AssetStore) (e : AssetCommand × List Crash.Event) : AssetStore :=
  match e.1 with
  | .store c => ((handleStoreAssetFromPath sha256 key c).run e.2 s).2
  | .forget c => ((handleForgetAsset c).run e.2 s).2

/-- Every active row whose blob file exists decodes to bytes with its checksum. -/
def RowsAgree (s : AssetStore) : Prop :=
  ∀ r ∈ s.assets, r.status = .active → ∀ blob, s.files (.final r.storagePath) = some blob →
    ∃ b, r.decode sha256 key blob = .ok b ∧ sha256 b = r.sha256

/-- A `StoreAsset` that answers `Ok` ends with a blob that decodes to its bytes. -/
def StoreKeeps (s : AssetStore) (e : AssetCommand × List Crash.Event) : Prop :=
  ∀ c b report, e.1 = .store c → c.content = some b →
    ((handleStoreAssetFromPath sha256 key c).run e.2 s).1 = some (.ok report) →
    Stored sha256 key b report (s.step sha256 key e)

/-- The command heals a missing blob, with one that does not decode under the row as it is, and
stops between the rename and the commit. -/
structure HealsHalfway (s : AssetStore) (c : StoreAsset) (es : List Crash.Event) (b : List UInt8)
    (row : AssetRow) (blob : AssetBlobPayload) : Prop where
  reads : Crash.Event.nth es 0 = .ok ∧ Crash.Event.nth es 1 = .ok
  source : checkAssetSource sha256 c = .ok (b, sha256 b)
  found : s.assets.find? (·.sha256 = sha256 b) = some row
  missing : s.files (.final row.storagePath) = none
  built : buildAssetBlobPayload key c.nonce b (sha256 b) = .ok blob
  quota : enforceAssetQuota c.quotaBytes c.currentSize blob.bytes.length = .ok ()
  foreign : row.decode sha256 key blob.bytes ≠ .ok b
  stops : StopsHeal es.tail.tail

/-- The command does not heal halfway. -/
def HealsThrough (s : AssetStore) (e : AssetCommand × List Crash.Event) : Prop :=
  ∀ c b row blob, e.1 = .store c → ¬ HealsHalfway sha256 key s c e.2 b row blob

/-- What one `StoreAsset` of `b` comes to. -/
def StoreOutcome (S : Set (List UInt8)) (b : List UInt8)
    (p : Option (Except Error StoredAssetReport) × AssetStore) : Prop :=
  SoundIn sha256 key S p.2 ∧ ∀ report, p.1 = some (.ok report) → Stored sha256 key b report p.2

/-- The bytes that the commands of a run are about. -/
def contents (es : List (AssetCommand × List Crash.Event)) : Set (List UInt8) :=
  {b | ∃ e ∈ es, ∃ c, e.1 = .store c ∧ c.content = some b}

variable {sha256 key} {S : Set (List UInt8)} {s : AssetStore} {c : StoreAsset}
  {es : List Crash.Event} {b : List UInt8}

theorem checkAssetSource_eq_ok {sha : String} (h : checkAssetSource sha256 c = .ok (b, sha)) :
    c.content = some b ∧ sha = sha256 b := by
  unfold checkAssetSource at h
  cases hc : c.content with
  | none => simp [hc] at h
  | some content =>
    simp only [hc, Result.bind_eq_ok, Result.pure_eq_ok, Prod.mk.injEq] at h
    obtain ⟨_, -, _, -, _, -, rfl, rfl⟩ := h
    exact ⟨rfl, rfl⟩

/-- A row that is there: its blob is healed, or is there already. -/
theorem dedupAsset_run (hsha : ∀ b, IsHexDigest (sha256 b)) (hi : SoundIn sha256 key S s)
    (hbS : b ∈ S) {row : AssetRow} (hrow : row ∈ s.assets) (hs : Sound sha256 key s b row)
    (hgap : s.files (.final row.storagePath) = none → ∀ blob,
      buildAssetBlobPayload key c.nonce b (sha256 b) = .ok blob →
      enforceAssetQuota c.quotaBytes c.currentSize blob.bytes.length = .ok () → StopsHeal es →
      row.decode sha256 key blob.bytes = .ok b) :
    StoreOutcome sha256 key S b ((dedupAsset key c b (sha256 b) row).run es s) := by
  unfold dedupAsset BlobPath.isFile
  rw [Prog.run_get_bind]
  cases hfile : s.files (.final row.storagePath) with
  | none =>
    have hheal :
        HealOutcome key c b (sha256 b) row s es ((healAsset key c b (sha256 b) row).run es s) :=
      healAsset_run hfile
    rw [if_pos (by rfl), Prog.run_bind_pure]
    cases hrun : (healAsset key c b (sha256 b) row).run es s with
    | mk r s' =>
      rw [hrun] at hheal
      refine ⟨hheal.keeps hsha hi hbS hrow hs (hgap hfile), fun report hr => ?_⟩
      match r, hr with
      | some (.ok ()), hr =>
        obtain rfl := Except.ok.inj (Option.some.inj hr)
        exact hheal.stored hsha hrow hs
  | some blob =>
    have hblob := hs.decodes blob hfile
    rw [if_neg (by simp)]
    split
    · rw [Prog.run_get_bind, sqlCommit, Prog.run_op_bind]
      have hset := hi.setStatus (·.assetId = row.assetId) .active c.nowMs
      rcases Crash.Event.nth es 0 with _ | n | n
      · refine ⟨hset, fun report hr => ?_⟩
        obtain rfl := Except.ok.inj (Option.some.inj hr)
        have hmem : setStatus .active c.nowMs row ∈
            s.assets.updateWhere (·.assetId = row.assetId) (setStatus .active c.nowMs)
            (setStatus_clash _ _) :=
          Table.mem_updateWhere.2 ⟨row, hrow, by simp⟩
        exact ⟨_, hmem, rfl, rfl, rfl, blob, hfile, hblob⟩
      · dsimp only
        refine ⟨?_, by simp⟩
        split
        · exact hi
        · exact hset
      · dsimp only
        refine ⟨?_, by simp⟩
        split
        · exact hi
        · exact hset
    · next hactive =>
      refine ⟨hi, fun report hr => ?_⟩
      obtain rfl := Except.ok.inj (Option.some.inj hr)
      have hstatus : row.status = .active := by
        cases h : row.status with
        | active => rfl
        | deleted => exact absurd h hactive
      exact ⟨row, hrow, rfl, rfl, hstatus, blob, hfile, hblob⟩

theorem freshAsset_run (hsha : ∀ b, IsHexDigest (sha256 b)) (hi : SoundIn sha256 key S s)
    (hbS : b ∈ S)
    (path : String) :
    StoreOutcome sha256 key S b ((freshAsset key c b (sha256 b) path).run es s) := by
  refine Prog.run_of_wp (F := fun _ => True) ?_ fun _ _ => trivial
  refine Prog.wp_mono ?_ (fun s' h' => ⟨h', by simp⟩) (freshAsset_wp hsha hi hbS)
  rintro r s' ⟨h', hr⟩
  exact ⟨h', fun report hrep => hr report (Option.some.inj hrep)⟩

/-- `StoreAsset` of bytes that collide with none in `S`. -/
theorem handleStoreAsset_run (hsha : ∀ b, IsHexDigest (sha256 b)) (hinj : Set.InjOn sha256 S)
    (hi : SoundIn sha256 key S s) (hcontent : ∀ b, c.content = some b → b ∈ S)
    (hgap : ∀ b row blob, ¬ HealsHalfway sha256 key s c es b row blob) :
    SoundIn sha256 key S ((handleStoreAssetFromPath sha256 key c).run es s).2 ∧
      ∀ b report, c.content = some b →
        ((handleStoreAssetFromPath sha256 key c).run es s).1 = some (.ok report) →
        Stored sha256 key b report ((handleStoreAssetFromPath sha256 key c).run es s).2 := by
  unfold handleStoreAssetFromPath ioRead
  rw [Prog.run_op_bind]
  rcases h0 : Crash.Event.nth es 0 with _ | n | n
  rotate_left
  · exact ⟨hi, by simp⟩
  · exact ⟨hi, by simp⟩
  dsimp only
  cases hcheck : checkAssetSource sha256 c with
  | error e => exact ⟨hi, by simp⟩
  | ok checked =>
    obtain ⟨b, sha⟩ := checked
    obtain ⟨hb, rfl⟩ := checkAssetSource_eq_ok hcheck
    have hbS := hcontent b hb
    rw [Prog.ofExcept_bind_ok]
    dsimp only
    cases hpath : assetBlobPaths (sha256 b) with
    | error e => exact ⟨hi, by simp⟩
    | ok path =>
      rw [Prog.ofExcept_bind_ok, Prog.run_op_bind, Crash.Event.nth_tail]
      rcases h1 : Crash.Event.nth es 1 with _ | n | n
      rotate_left
      · exact ⟨hi, by simp⟩
      · exact ⟨hi, by simp⟩
      dsimp only
      rw [Prog.run_get_bind]
      have hone {p : Option (Except Error StoredAssetReport) × AssetStore}
          (hp : StoreOutcome sha256 key S b p) : SoundIn sha256 key S p.2 ∧
            ∀ b report, c.content = some b → p.1 = some (.ok report) →
            Stored sha256 key b report p.2 := by
        refine ⟨hp.1, fun b' report hb' => ?_⟩
        obtain rfl : b = b' := Option.some.inj (hb.symm.trans hb')
        exact hp.2 report
      cases hfind : s.assets.find? (·.sha256 = sha256 b) with
      | none => exact hone (freshAsset_run hsha hi hbS path)
      | some row =>
        obtain ⟨hrow, hhash⟩ := Table.find?_mem hfind
        obtain ⟨b', hb', hs⟩ := hi row hrow
        obtain rfl : b' = b := hinj hb' hbS (hs.hash.symm.trans (by simpa using hhash))
        refine hone (dedupAsset_run hsha hi hbS hrow hs fun hnone blob built quota hstops => ?_)
        by_contra hforeign
        exact hgap b' row blob ⟨⟨h0, h1⟩, hcheck, hfind, hnone, built, quota, hforeign, hstops⟩

theorem markDeleted_wp (f : ForgetAsset) (hi : SoundIn sha256 key S s) :
    (markDeleted f).wp (fun _ => True) (fun _ => SoundIn sha256 key S) (SoundIn sha256 key S)
    s := by
  have hset : SoundIn sha256 key S (s.setAssets (s.assets.updateWhere
      (fun r => r.assetId = f.assetId && r.status ≠ .deleted) (setStatus .deleted f.nowMs)
        (setStatus_clash _ _))) :=
    hi.setStatus _ _ _
  have hcut (n : ℕ) : SoundIn sha256 key S (if n = 0 then s else s.setAssets (s.assets.updateWhere
      (fun r => r.assetId = f.assetId && r.status ≠ .deleted) (setStatus .deleted f.nowMs)
        (setStatus_clash _ _))) := by
    split
    · exact hi
    · exact hset
  unfold markDeleted sqlStatement sqlCommit
  simp only [Prog.wp_bind, Prog.wp_op, Prog.wp_get]
  exact ⟨⟨⟨⟨hset, fun n _ => hcut n, fun n _ => hcut n⟩, fun _ _ => hi, fun _ _ => hi⟩,
    fun _ _ => hi, fun _ _ => hi⟩, fun _ _ => hi, fun _ _ => hi⟩

/-- `ForgetAsset` removes the blob before it marks the row. -/
theorem handleForgetAsset_wp (f : ForgetAsset) (hi : SoundIn sha256 key S s) :
    (handleForgetAsset f).wp (fun _ => True) (fun _ => SoundIn sha256 key S) (SoundIn sha256 key S)
    s := by
  have hmark {s₁ : AssetStore} {report : ForgetAssetReport} (h₁ : SoundIn sha256 key S s₁) :
      (markDeleted f >>= fun _ => pure report).wp (fun _ => True) (fun _ => SoundIn sha256 key S)
        (SoundIn sha256 key S) s₁ := by
    rw [Prog.wp_bind]
    refine Prog.wp_mono (fun r s₂ h₂ => ?_) (fun _ h₂ => h₂) (markDeleted_wp f h₁)
    cases r with
    | error e => exact h₂
    | ok _ => exact h₂
  unfold handleForgetAsset ioRead
  rw [Prog.wp_bind, Prog.wp_op]
  refine ⟨?_, fun _ _ => hi, fun _ _ => hi⟩
  dsimp only
  rw [Prog.wp_bind, Prog.wp_get]
  cases hfind : s.assets.find? (·.assetId = f.assetId) with
  | none => exact hi
  | some row =>
    dsimp only
    cases hsafe : safeAssetStoragePath row.storagePath with
    | error e => exact hi
    | ok _ =>
      rw [Prog.ofExcept_bind_ok, Prog.wp_bind, Prog.wp_op]
      refine ⟨?_, fun _ _ => hi, fun _ _ => hi⟩
      dsimp only
      rw [Prog.wp_bind, Prog.wp_op]
      refine ⟨?_, fun _ _ => hi, fun _ _ => hi⟩
      dsimp only
      rw [BlobPath.isFile, Prog.wp_bind, Prog.wp_get]
      dsimp only
      split
      · rw [Prog.wp_bind]
        refine Prog.wp_mono (fun r s₁ hf => ?_) (fun s₁ hf => hi.fewer hf) (remove_wp _ _)
        cases r with
        | error e => exact hi.fewer hf
        | ok _ => exact hmark (hi.fewer hf)
      · exact hmark hi

/-- What one command keeps. -/
theorem SoundIn.step (hsha : ∀ b, IsHexDigest (sha256 b)) (hinj : Set.InjOn sha256 S)
    (hi : SoundIn sha256 key S s)
    (e : AssetCommand × List Crash.Event)
    (hcontent : ∀ c b, e.1 = .store c → c.content = some b → b ∈ S)
    (hgap : HealsThrough sha256 key s e) :
    SoundIn sha256 key S (s.step sha256 key e) ∧ StoreKeeps sha256 key s e := by
  obtain ⟨c | f, es⟩ := e
  · obtain ⟨hs, hk⟩ := handleStoreAsset_run hsha hinj hi (fun b hb => hcontent c b rfl hb)
      (c := c) fun b row blob => hgap c b row blob rfl
    refine ⟨hs, ?_⟩
    rintro _ b report ⟨⟩ hb hr
    exact hk b report hb hr
  · refine ⟨?_, fun c b report hc => AssetCommand.noConfusion hc⟩
    show SoundIn sha256 key S ((handleForgetAsset f).run es s).2
    exact Prog.run_of_wp (P := fun out => SoundIn sha256 key S out.2) (handleForgetAsset_wp f hi)
      fun _ _ => trivial

theorem SoundIn.rowsAgree (hi : SoundIn sha256 key S s) : RowsAgree sha256 key s := by
  intro r hr _ blob hblob
  obtain ⟨b, -, hs⟩ := hi r hr
  exact ⟨b, hs.decodes blob hblob, hs.hash.symm⟩

end Runs

/-- Whatever the commands and wherever they are cut, short of healing halfway: rows and blobs agree,
and a `StoreAsset` that answers `Ok` leaves a blob that decodes to its bytes. -/
theorem assetsAgree_always (sha256 : List UInt8 → String) (key : Option Aead)
    (es : List (AssetCommand × List Crash.Event))
    (hsha : ∀ b, IsHexDigest (sha256 b)) (hinj : Set.InjOn sha256 (contents es))
    (hg : Run.Guarded (AssetStore.step sha256 key) (HealsThrough sha256 key) .empty es) :
    Run.Always (AssetStore.step sha256 key) (RowsAgree sha256 key) .empty es ∧
      Run.Guarded (AssetStore.step sha256 key) (StoreKeeps sha256 key) .empty es := by
  have hg :=
    hg.and_forall (D := fun e => ∀ c b, e.1 = .store c → c.content = some b → b ∈ contents es)
    fun e he c b hc hb => ⟨e, he, c, hc, hb⟩
  have hstep (s : AssetStore) (e : AssetCommand × List Crash.Event)
      (hi : SoundIn sha256 key (contents es) s)
      (he : HealsThrough sha256 key s e ∧ ∀ c b, e.1 = .store c → c.content = some b →
        b ∈ contents es) :=
    hi.step hsha hinj e he.2 he.1
  have h0 : SoundIn sha256 key (contents es) AssetStore.empty :=
    fun r hr => absurd hr List.not_mem_nil
  refine ⟨hg.always (SoundIn sha256 key (contents es)) (fun s e hi he => (hstep s e hi he).1)
    (fun s hi => hi.rowsAgree) h0, ?_⟩
  exact (hg.strengthen (SoundIn sha256 key (contents es)) (fun s e hi he => (hstep s e hi he).1)
    h0).mono fun s e h => (hstep s e h.1 h.2).2

/-! ### Runs on one file -/

namespace HiAsset

def bytes : List UInt8 := [0x68, 0x69]

def sha256 : List UInt8 → String :=
  fun _ => "8f434346648f6b96df89dda901c5176b10a6d83961dd3c1ac88b59b2dc327aa4"

/-- A cipher that only remembers its nonce. -/
def key : Aead where
  encrypt nonce _ msg := some (nonce.1 ++ msg)
  decrypt nonce _ c :=
  if c.take assetBlobNonceLen = nonce.1 then some (c.drop assetBlobNonceLen) else none
  decrypt_encrypt := by
    rintro nonce - msg c h
    rw [Option.some.injEq] at h
    rw [← h, List.take_left' nonce.2, List.drop_left' nonce.2, if_pos rfl]
  decrypt_other := by
    rintro nonce nonce' - - msg c h hne
    rw [Option.some.injEq] at h
    rw [← h, List.take_left' nonce.2, if_neg fun h => hne (Subtype.ext h)]

def nonce (n : UInt8) : XNonce := ⟨List.replicate assetBlobNonceLen n, List.length_replicate⟩

def store (n : UInt8) : AssetCommand :=
  .store { path := "hi.txt", content := some bytes, filename := none, mimeType := none, sizeBytes := none
           sha256 := none, source := none, auditPrincipal := none, assetId := "asset-1",
           stagingId := "staging-1"
           nonce := some (nonce n), nowMs := 1000, quotaBytes := none, currentSize := 0 }

def forget : AssetCommand := .forget ⟨"asset-1", 2000, 0, 0⟩

theorem isHexDigest (b : List UInt8) : IsHexDigest (sha256 b) := by
  show IsHexDigest "8f434346648f6b96df89dda901c5176b10a6d83961dd3c1ac88b59b2dc327aa4"
  have hall : ("8f434346648f6b96df89dda901c5176b10a6d83961dd3c1ac88b59b2dc327aa4".toList.all
      (· ∈ "0123456789abcdef".toList)) = true := by decide +kernel
  exact ⟨by decide +kernel, fun c hc => of_decide_eq_true (List.all_eq_true.1 hall c hc)⟩

/-- The blob is forgotten, with a crash before the row is; and stored again, with a crash before the
commit. -/
def halfway : List (AssetCommand × List Crash.Event) :=
  [(store 1, []), (forget, Crash.Event.crashAt (some (4, 0))),
    (store 2, Crash.Event.crashAt (some (7, 0)))]

end HiAsset

open HiAsset in
theorem healCut_not_agree :
    ¬ Run.Always (AssetStore.step HiAsset.sha256 (some key)) (RowsAgree HiAsset.sha256 (some key))
    .empty halfway := by
  intro h
  have hlast := h.last
  have hrow :
      ∃ r ∈ (Run.run (AssetStore.step HiAsset.sha256 (some key)) .empty halfway).assets.rows,
      r.status = .active ∧
      ∃ blob ∈ (Run.run (AssetStore.step HiAsset.sha256 (some key)) .empty halfway).files
      (.final r.storagePath),
        (r.decode HiAsset.sha256 (some key) blob).toOption = none := by decide +kernel
  obtain ⟨r, hr, hactive, blob, hblob, hnone⟩ := hrow
  obtain ⟨b, hb, -⟩ := hlast r hr hactive blob hblob
  rw [hb] at hnone
  cases hnone

open HiAsset in
/-- The same commands, healed through. -/
theorem assetsAgree_always_healed :
    Run.Always (AssetStore.step HiAsset.sha256 (some key)) (RowsAgree HiAsset.sha256 (some key))
    .empty
        [(store 1, []), (forget, Crash.Event.crashAt (some (4, 0))), (store 2, [])] ∧
      Run.Guarded (AssetStore.step HiAsset.sha256 (some key)) (StoreKeeps HiAsset.sha256 (some key))
      .empty
        [(store 1, []), (forget, Crash.Event.crashAt (some (4, 0))), (store 2, [])] := by
  have hthrough (s : AssetStore) (cmd : AssetCommand) : HealsThrough HiAsset.sha256 (some key)
      s (cmd, []) := by
    rintro c b row blob - h
    have hstop := h.stops.2
    simp [Crash.Event.nth] at hstop
  refine assetsAgree_always HiAsset.sha256 (some key)
    _ isHexDigest ?_ ⟨hthrough _ _, ?_, hthrough _ _, trivial⟩
  · have hbytes (b : List UInt8) (hb : b ∈ contents
        [(store 1, []), (forget, Crash.Event.crashAt (some (4, 0))), (store 2, [])]) :
        b = bytes := by
      obtain ⟨e, he, c, hc, hb⟩ := hb
      simp only [List.mem_cons, List.not_mem_nil, or_false] at he
      rcases he with rfl | rfl | rfl
      · obtain rfl := AssetCommand.store.inj hc
        exact (Option.some.inj hb).symm
      · cases hc
      · obtain rfl := AssetCommand.store.inj hc
        exact (Option.some.inj hb).symm
    exact fun b hb b' hb' _ => (hbytes b hb).trans (hbytes b' hb').symm
  · rintro c b row blob hc
    exact absurd hc AssetCommand.noConfusion

end Solo
