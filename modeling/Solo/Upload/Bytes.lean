import Solo.Lib.Run
import Solo.Upload.Protocol

/-!
# The bytes of an upload, over any sequence of calls without a crash

`BytesHeld` is what every state owes the client while the upload is open, `StepSafe` what every call
owes it. Two kinds of calls break them: the final file of an upload named `upload.part` is the
staging file itself, so that its commit deletes the bytes it was to move (`partName_not_safe`), and
a commit that brings a checksum of its own is not held to the one given at prepare
(`ownChecksum_not_safe`). `uploadBytes_safe`: there is no other way, short of asking again for a
commit whose file an ingest has deleted, which is answered from the manifest.
-/

namespace Solo

open Crash Result

/-- The operations are carried out: no crash and no I/O error. -/
def NoFault (_ : Crash.Event) : Prop := False

/-! ### The manifest in force -/

/-- The loader answers with `m`. -/
def Current (id : String) (s : Staging) (m : UploadManifest) : Prop :=
  m.uploadId = id ∧ ∃ staged stable, Holds s staged stable ∧ (staged <|> stable) = some m

/-- There is no manifest: the upload was never prepared, or it was swept. -/
def Gone (s : Staging) : Prop := ∀ p, s.manifests p = none

section Current

variable {id : String} {s s' : Staging} {m m' : UploadManifest} {α : Type}
variable {F : Crash.Event → Prop} {Q : Except Error α → Staging → Prop} {C : Staging → Prop}

theorem Current.load (h : Current id s m) : loadManifestForUpload s id = .ok m := by
  obtain ⟨hid, staged, stable, hs, hm⟩ := h
  exact hs.load hm hid

theorem Current.congr (h : Current id s m) (hm : s'.manifests = s.manifests) : Current id s' m := by
  obtain ⟨hid, staged, stable, hs, hm'⟩ := h
  exact ⟨hid, staged, stable, hs.congr hm, hm'⟩

theorem Gone.load (h : Gone s) (id : String) :
    loadManifestForUpload s id = .error (.notFound s!"upload {id} not found") := by
  simp [loadManifestForUpload, manifestRecoveryPaths, loadCandidates, h .tmp, h .primary, h .bak]

theorem wp_loadManifest {f : UploadManifest → UploadProg α} :
    (loadManifest id >>= f).wp F Q C s ↔
      (match loadManifestForUpload s id with
        | .ok m => (f m).wp F Q C s
        | .error e => Q (.error e) s) := by
  rw [Prog.wp_bind, loadManifest, Prog.wp_read, Prog.wp_ret]
  cases loadManifestForUpload s id <;> exact Iff.rfl

theorem run_loadManifest {f : UploadManifest → UploadProg α} {es : List Crash.Event} :
    (loadManifest id >>= f).run es s =
      (match loadManifestForUpload s id with
        | .ok m => (f m).run es s
        | .error e => (some (.error e), s)) := by
  show (Prog.bind (.read fun s => .ret (loadManifestForUpload s id)) f).run es s = _
  simp only [Prog.bind, Prog.run]
  cases loadManifestForUpload s id <;> rfl

/-- Without faults a write makes its manifest the current one. -/
theorem Current.write (h : Current id s m) (hid : m'.uploadId = id) :
    (writeManifest m').wp NoFault (fun r s' => r = .ok () ∧ Current id s' m' ∧ s'.files = s.files)
    (fun _ => True) s := by
  obtain ⟨-, staged, stable, hs, -⟩ := h
  refine Prog.wp_mono ?_ (fun _ _ => trivial) (Prog.wp_filter nofun (writeManifest_wp m' hs))
  rintro r s' ⟨rfl, hs', hd⟩
  exact ⟨rfl, ⟨hid, none, some m', hs', rfl⟩, hd⟩

theorem Current.writeOr {reply : Except Error α} {rollback : UploadProg Unit} (h : Current id s m)
    (hid : m'.uploadId = id) :
    (writeManifestOr m' rollback reply).wp NoFault (fun r s' => r = reply ∧ Current id s' m' ∧
      s'.files = s.files) (fun _ => True) s := by
  rw [writeManifestOr, Prog.wp_bind, Prog.wp_attempt]
  refine Prog.wp_mono ?_ (fun _ _ => trivial) (h.write hid)
  rintro r s' ⟨rfl, hs', hd⟩
  exact ⟨rfl, hs', hd⟩

end Current

/-! ### What each call does -/

section Calls

variable (sha256 : List UInt8 → String) (id : String) (s : Staging) (m : UploadManifest)

/-- An append is refused and changes nothing, or its chunk reaches both files. -/
inductive AppendOutcome (offset : Nat) (uploadLength : Option Nat) (bytes : List UInt8)
    (now : ℕ → Int) : Except Error UploadStatusResponse → Staging → Prop
  | refused (e : Error)
      (why : s.files.isSome = true → bytes ≠ [] → bytes.length ≤ recommendedChunkBytes → ∀ next,
        checkAppend m (s.dir uploadPart) offset uploadLength bytes (now 0) ≠ .ok next) :
      AppendOutcome offset uploadLength bytes now (.error e) s
  | written (resp : UploadStatusResponse) (next : Nat) (s' : Staging)
      (check : checkAppend m (s.dir uploadPart) offset uploadLength bytes (now 0) = .ok next)
      (current : Current id s' { m with bytesReceived := next })
      (exists_ : s.files.isSome = true)
      (dir : s'.files = (s.setFile uploadPart (some ((s.dir uploadPart).getD [] ++ bytes))).files) :
      AppendOutcome offset uploadLength bytes now (.ok resp) s'

/-- A commit under a name of its own is refused and changes nothing, is answered from the manifest,
or moves the bytes. -/
inductive CommitOutcome (requestSha256 : Option String) (now : ℕ → Int) :
    Except Error UploadCommitResponse → Staging → Prop
  | refused (e : Error)
      (why : m.status = .open → uploadIsExpiredAt m (now 0) = false → ∀ actual,
        checkCommit sha256 m (s.dir uploadPart) requestSha256 (now 1) ≠ .ok actual) :
      CommitOutcome requestSha256 now (.error e) s
  | replayed (resp : UploadCommitResponse) (status : m.status = .committed ∨ m.status = .ingested) :
      CommitOutcome requestSha256 now (.ok resp) s
  | moved (resp : UploadCommitResponse) (bytes : List UInt8) (s' : Staging)
      (part : s.dir uploadPart = some bytes)
      (check : checkCommit sha256 m (s.dir uploadPart) requestSha256 (now 1) = .ok (sha256 bytes))
      (current : Current id s' { m with actualSha256 := some (sha256 bytes), status := .committed })
      (final : s'.dir m.sanitizedFilename = some bytes) :
      CommitOutcome requestSha256 now (.ok resp) s'

variable {sha256 id s m}

theorem appendUploadChunk_wp (h : Current id s m) (offset : Nat) (uploadLength : Option Nat)
    (bytes : List UInt8) (now : ℕ → Int) :
    (appendUploadChunk id offset uploadLength bytes now).wp NoFault
      (AppendOutcome id s m offset uploadLength bytes now) (fun _ => True) s := by
  unfold appendUploadChunk
  split
  · next hempty => exact .refused _ fun _ h => absurd hempty h
  split
  · next hlarge => exact .refused _ fun _ _ h => absurd hlarge (Nat.not_lt.2 h)
  rw [wp_loadManifest, h.load]
  simp only [Prog.wp_bind, Prog.wp_get, Prog.wp_ofExcept]
  cases hc : checkAppend m (s.dir uploadPart) offset uploadLength bytes (now 0) with
  | error e => exact .refused e fun _ _ _ next => by simp [hc]
  | ok next =>
    simp only [UploadFile.append, Prog.wp_op]
    refine ⟨?_, fun _ h => h.elim, fun _ h => h.elim⟩
    cases hfiles : s.files with
    | none => exact .refused _ fun hexists => by simp [hfiles] at hexists
    | some fs =>
      rw [Option.map_some]
      dsimp only
      refine Prog.wp_mono ?_ (fun _ _ => trivial) (Current.writeOr (h.congr rfl) h.1)
      rintro r s' ⟨rfl, hs', hd⟩
      exact .written _ next s' hc hs' (by rw [hfiles]; rfl) hd

/-- A preparation is refused, or leaves an open upload without bytes. -/
theorem prepareUpload_wp (id : String) (request : UploadPrepareRequest)
    (allowedExtensions : List String) (defaultStoreOriginalFile : Bool) (now : ℕ → Int) :
    (prepareUpload id request allowedExtensions defaultStoreOriginalFile now).wp NoFault
      (fun _ s' =>
        (s' = .empty ∧ validatePrepareRequest request allowedExtensions defaultStoreOriginalFile ≠
          .ok ()) ∨
        ∃ e, validatePrepareRequest request allowedExtensions defaultStoreOriginalFile = .ok () ∧
        normalizeSha256 request.sha256 = .ok e ∧
        Current id s' (preparedManifest id request e (now 0)) ∧
        s'.files = some []) (fun _ => True) .empty := by
  unfold prepareUpload
  rw [Prog.wp_bind, Prog.wp_ofExcept]
  cases hv : validatePrepareRequest request allowedExtensions defaultStoreOriginalFile with
  | error e => exact .inl ⟨rfl, by simp⟩
  | ok u =>
    dsimp only
    rw [Prog.wp_bind, Prog.wp_ofExcept]
    obtain ⟨-, -, e', he'⟩ := validatePrepareRequest_eq_ok hv
    cases he : normalizeSha256 request.sha256 with
    | error e => simp [he] at he'
    | ok e =>
      dsimp only
      rw [Prog.wp_bind, UploadFile.createDirAll, Prog.wp_op]
      refine ⟨?_, fun _ h => h.elim, fun _ h => h.elim⟩
      dsimp only
      rw [Prog.wp_bind]
      have hempty : Holds Staging.empty.makeDir none none := ⟨rfl, .inr ⟨rfl, rfl⟩⟩
      refine Prog.wp_mono ?_ (fun _ _ => trivial)
        (Prog.wp_filter nofun (writeManifest_wp (preparedManifest id request e (now 0)) hempty))
      rintro r s' ⟨rfl, hs', hd⟩
      exact .inr ⟨e, rfl, rfl, ⟨rfl, none, _, hs', rfl⟩, hd⟩

theorem moveUpload_wp {m' : UploadManifest} {bytes : List UInt8} (h : Current id s m)
    (hid : m'.uploadId = id) (hpart : s.dir uploadPart = some bytes) : (moveUpload m').wp NoFault
      (fun r s' => r = commitResponseFromManifest m' ∧ Current id s' m' ∧
        s'.dir m'.sanitizedFilename = some bytes) (fun _ => True) s := by
  rw [moveUpload, Prog.wp_bind, UploadFile.rename, Prog.wp_op, hpart]
  refine ⟨?_, nofun, nofun⟩
  refine Prog.wp_mono ?_ (fun _ _ => trivial) (Current.writeOr (h.congr rfl) hid)
  rintro r s' ⟨rfl, hs', hd⟩
  have hexists : ((s.setFile uploadPart none).files).isSome = true :=
    (s.setFile_files_isSome uploadPart none).trans (Staging.files_isSome_of_dir hpart)
  refine ⟨rfl, hs', ?_⟩
  rw [Staging.dir_congr hd, Staging.setFile_some_dir hexists, if_pos rfl]

theorem commitOpenUpload_wp (h : Current id s m) (hname : m.sanitizedFilename ≠ uploadPart)
    (requestSha256 : Option String) (now : ℕ → Int) :
    (commitOpenUpload sha256 m requestSha256 now).wp NoFault
      (CommitOutcome sha256 id s m requestSha256 now) (fun _ => True) s := by
  unfold commitOpenUpload
  simp only [Prog.wp_bind, Prog.wp_get, Prog.wp_ofExcept]
  cases hc : checkCommit sha256 m (s.dir uploadPart) requestSha256 (now 1) with
  | error e => exact .refused e fun _ _ actual => by simp [hc]
  | ok actual =>
    obtain ⟨-, -, bytes, hpart, -, requested, -, -, rfl⟩ := checkCommit_eq_ok.1 hc
    have hmove : ∀ s₁ : Staging, s₁.manifests = s.manifests → s₁.dir uploadPart = some bytes →
        (moveUpload { m with actualSha256 := some (sha256 bytes), status := .committed }).wp NoFault
          (CommitOutcome sha256 id s m requestSha256 now) (fun _ => True) s₁ := by
      intro s₁ hm₁ hp₁
      refine Prog.wp_mono ?_ (fun _ _ => trivial) (moveUpload_wp (h.congr hm₁) h.1 hp₁)
      rintro r s' ⟨rfl, hs', hd⟩
      exact .moved _ bytes s' hpart hc hs' hd
    simp only [UploadFile.createDirAll, Prog.wp_op]
    refine ⟨?_, fun _ h => h.elim, fun _ h => h.elim⟩
    rw [Staging.makeDir_eq (Staging.files_isSome_of_dir hpart)]
    split
    · simp only [Prog.wp_bind, UploadFile.removeIfExists, Prog.wp_op]
      exact ⟨hmove _ rfl (by simp [hpart, Ne.symm hname]), fun _ h => h.elim, fun _ h => h.elim⟩
    · exact hmove s rfl hpart

theorem commitUpload_wp (h : Current id s m)
    (hname : m.status = .open → m.sanitizedFilename ≠ uploadPart)
    (requestSha256 : Option String) (now : ℕ → Int) :
    (commitUpload sha256 id requestSha256 now).wp NoFault
      (CommitOutcome sha256 id s m requestSha256 now) (fun _ => True) s := by
  have hreplay : m.status = .committed ∨ m.status = .ingested →
      CommitOutcome sha256 id s m requestSha256 now (commitResponseFromManifest m) s := by
    intro hst
    cases hr : commitResponseFromManifest m with
    | ok resp => exact .replayed resp hst
    | error e => exact .refused e fun ho => by simp [ho] at hst
  rw [commitUpload, wp_loadManifest, h.load]
  simp only [commitLoadedUpload]
  split
  · next hexp => exact .refused _ fun _ hn => absurd hexp (by simp [hn])
  split
  · next hst => exact hreplay (.inl hst)
  · next hst => exact hreplay (.inr hst)
  · next hst => exact .refused _ fun ho => by simp [ho] at hst
  · next hst => exact .refused _ fun ho => by simp [ho] at hst
  · next hst => exact .refused _ fun ho => by simp [ho] at hst
  · next hst => exact commitOpenUpload_wp h (hname hst) requestSha256 now

/-- What an abort or an ingest leaves of a manifest that it rewrites. -/
structure SameFile (m m' : UploadManifest) : Prop where
  sanitizedFilename : m'.sanitizedFilename = m.sanitizedFilename
  sizeBytes : m'.sizeBytes = m.sizeBytes
  expectedSha256 : m'.expectedSha256 = m.expectedSha256
  actualSha256 : m'.actualSha256 = m.actualSha256

theorem abortUpload_wp (h : Current id s m) (now : ℕ → Int) :
    (abortUpload id now).wp NoFault
      (fun _ s' => s' = s ∨ (m.status ≠ .ingested ∧ m.status ≠ .aborted ∧
        ∃ m', Current id s' m' ∧ m'.status = .aborted ∧ SameFile m m')) (fun _ => True) s := by
  rw [abortUpload, wp_loadManifest, h.load]
  simp only [abortLoadedUpload]
  split
  · exact .inl rfl
  split
  · exact .inl rfl
  · next hi ha =>
    simp only [Prog.wp_bind, Prog.wp_get, UploadFile.removeIfExists, UploadFile.removeDirIfEmpty,
      Prog.wp_op]
    refine ⟨⟨⟨?_, fun _ h => h.elim, fun _ h => h.elim⟩, fun _ h => h.elim, fun _ h => h.elim⟩,
      fun _ h => h.elim, fun _ h => h.elim⟩
    refine Prog.wp_mono ?_ (fun _ _ => trivial)
      (Current.write (h.congr (Staging.removeDir_manifests _)) h.1)
    rintro r s' ⟨rfl, hs', hd⟩
    exact .inr ⟨hi, ha, _, hs', rfl, rfl, rfl, rfl, rfl⟩

theorem cleanupStagedUploadAfterIngest_wp (finalPath : String) (retain : Bool) :
    (cleanupStagedUploadAfterIngest finalPath retain).wp NoFault
      (fun r s' => (∃ b, r = .ok b) ∧ s'.manifests = s.manifests ∧
        (s'.dir finalPath = s.dir finalPath ∨ s'.dir finalPath = none)) (fun _ => True) s := by
  unfold cleanupStagedUploadAfterIngest
  split
  · exact ⟨⟨_, rfl⟩, rfl, .inl rfl⟩
  · simp [Prog.wp_bind, Prog.wp_attempt, UploadFile.removeIfExists, UploadFile.removeDirIfEmpty,
      Prog.wp_op, NoFault]

/-- An ingest changes nothing, or leaves the upload ingested, its file kept or deleted. -/
def IngestOutcome (id : String) (s : Staging) (m : UploadManifest) (s' : Staging) : Prop :=
  s' = s ∨ ((m.status = .committed ∨ m.status = .ingested) ∧
    (∃ m', Current id s' m' ∧ m'.status = .ingested ∧ SameFile m m') ∧
    (s'.dir m.sanitizedFilename = s.dir m.sanitizedFilename ∨ s'.dir m.sanitizedFilename = none))

theorem replayIngest_wp (h : Current id s m) (hst : m.status = .ingested) :
    (replayIngest m).wp NoFault (fun _ s' => IngestOutcome id s m s') (fun _ => True) s := by
  unfold replayIngest
  split
  · exact .inl rfl
  split
  · rw [Prog.wp_bind]
    refine Prog.wp_mono ?_ (fun _ _ => trivial) (cleanupStagedUploadAfterIngest_wp _ _)
    rintro r s₁ ⟨⟨b, rfl⟩, hm₁, hd₁⟩
    dsimp only
    rw [Prog.wp_bind]
    refine Prog.wp_mono ?_ (fun _ _ => trivial) (Current.write (h.congr hm₁) h.1)
    rintro r s' ⟨rfl, hs', hd⟩
    refine .inr ⟨.inr hst, ⟨_, hs', hst, rfl, rfl, rfl, rfl⟩, ?_⟩
    rw [Staging.dir_congr hd]
    exact hd₁
  · exact .inl rfl

theorem finalizeIngestResponse_wp (h : Current id s m) (hst : m.status = .committed)
    (response : StagedIngestResponse) (now : ℕ → Int) :
    (finalizeIngestResponse m response now).wp NoFault (fun _ s' => IngestOutcome id s m s')
    (fun _ => True) s := by
  simp only [finalizeIngestResponse]
  rw [Prog.wp_bind]
  refine Prog.wp_mono ?_ (fun _ _ => trivial) (Current.write h h.1)
  rintro r s₁ ⟨rfl, hs₁, hd₁⟩
  dsimp only
  rw [Prog.wp_bind]
  refine Prog.wp_mono ?_ (fun _ _ => trivial) (cleanupStagedUploadAfterIngest_wp _ _)
  rintro r s₂ ⟨⟨b, rfl⟩, hm₂, hd₂⟩
  dsimp only
  rw [Prog.wp_bind]
  refine Prog.wp_mono ?_ (fun _ _ => trivial) (Current.write (hs₁.congr hm₂) h.1)
  rintro r s' ⟨rfl, hs', hd⟩
  refine .inr ⟨.inl hst, ⟨_, hs', rfl, rfl, rfl, rfl, rfl⟩, ?_⟩
  rw [Staging.dir_congr hd, ← Staging.dir_congr hd₁]
  exact hd₂

theorem ingestStagedDocument_wp (h : Current id s m) (request : StagedIngestRequest)
    (library : Except Error LibraryIngest) (now : ℕ → Int) :
    (ingestStagedDocument id request library now).wp NoFault (fun _ s' => IngestOutcome id s m s')
      (fun _ => True) s := by
  unfold ingestStagedDocument
  rw [wp_loadManifest, h.load]
  simp only
  split
  · next hst => exact replayIngest_wp h hst
  split
  · exact .inl rfl
  split
  · exact .inl rfl
  · next hst =>
    rw [Prog.wp_bind, Prog.wp_get]
    dsimp only
    split
    · exact .inl rfl
    · rw [Prog.wp_bind, Prog.wp_ofExcept]
      cases library with
      | error e => exact .inl rfl
      | ok done => exact finalizeIngestResponse_wp h (not_not.1 hst) _ now

theorem sweepExpiredUploads_wp (now : ℕ → Int) :
    (sweepExpiredUploads id now).wp NoFault (fun _ s' => s' = s ∨ Gone s') (fun _ => True) s := by
  have hremove : ∀ m' : UploadManifest,
      (removeUploadPaths m').wp NoFault (fun _ s' => Gone s') (fun _ => True) s := by
    intro m'
    simp only [removeUploadPaths, Prog.wp_bind, UploadFile.removeIfExists,
      ManifestPath.removeIfExists, UploadFile.removeDirIfEmpty, Prog.wp_op]
    refine ⟨⟨⟨⟨⟨⟨?_, fun _ h => h.elim, fun _ h => h.elim⟩, fun _ h => h.elim, fun _ h => h.elim⟩,
      fun _ h => h.elim,
      fun _ h => h.elim⟩, fun _ h => h.elim, fun _ h => h.elim⟩, fun _ h => h.elim,
        fun _ h => h.elim⟩, fun _ h => h.elim,
      fun _ h => h.elim⟩
    intro p
    rw [Staging.removeDir_manifests]
    cases p <;> simp
  unfold sweepExpiredUploads
  rw [Prog.wp_bind, Prog.wp_get]
  dsimp only
  split
  · exact .inl rfl
  split
  · exact .inl rfl
  rw [Prog.wp_bind, Prog.wp_get]
  dsimp only
  split
  · exact .inl rfl
  split
  · exact .inl rfl
  · rw [Prog.wp_bind]
    refine Prog.wp_mono ?_ (fun _ _ => trivial) (hremove _)
    rintro (e | u) s' hs'
    · exact .inr hs'
    · exact .inr hs'

end Calls

/-! ### Runs -/

/-- An upload and the chunks of the appends that were answered `Ok`, in order. -/
structure UploadRun where
  staging : Staging
  accepted : List UInt8

inductive UploadCall
  | append (offset : Nat) (uploadLength : Option Nat) (bytes : List UInt8) (now : ℕ → Int)
  | status (now : ℕ → Int)
  | commit (requestSha256 : Option String) (now : ℕ → Int)
  | abort (now : ℕ → Int)
  | ingest (request : StagedIngestRequest) (library : Except Error LibraryIngest) (now : ℕ → Int)
  /-- The sweep, on its own or at the start of the preparation of another upload. -/
  | sweep (now : ℕ → Int)

namespace UploadRun

variable (sha256 : List UInt8 → String) (id : String) (request : UploadPrepareRequest)

/-- The upload after `prepare_upload` on an empty staging directory. -/
def prepared (allowedExtensions : List String) (defaultStoreOriginalFile : Bool) (now : ℕ → Int) :
    UploadRun :=
  ⟨((prepareUpload id request allowedExtensions defaultStoreOriginalFile now).run [] .empty).2, []⟩

def step (s : UploadRun) : UploadCall → UploadRun
  | .append offset uploadLength bytes now =>
    match (appendUploadChunk id offset uploadLength bytes now).run [] s.staging with
    | (some (.ok _), staging) => ⟨staging, s.accepted ++ bytes⟩
    | (_, staging) => ⟨staging, s.accepted⟩
  | .status now => { s with staging := ((uploadStatus id now).run [] s.staging).2 }
  | .commit requestSha256 now =>
    { s with staging := ((commitUpload sha256 id requestSha256 now).run [] s.staging).2 }
  | .abort now => { s with staging := ((abortUpload id now).run [] s.staging).2 }
  | .ingest request library now =>
    { s with staging := ((ingestStagedDocument id request library now).run [] s.staging).2 }
  | .sweep now => { s with staging := ((sweepExpiredUploads id now).run [] s.staging).2 }

/-- While the upload is open, `upload.part` holds the accepted bytes, as many as the manifest
says. -/
def BytesHeld (s : UploadRun) : Prop :=
  ∀ m, loadManifestForUpload s.staging id = .ok m → m.status = .open →
    (s.staging.dir uploadPart).getD [] = s.accepted ∧ s.accepted.length = m.bytesReceived

/-- A commit that is right about an open upload: all bytes are there, it has not expired, and the
checksum it is held to is theirs. -/
structure CorrectCommit (s : UploadRun) (requestSha256 : Option String) (now : ℕ → Int) : Prop where
  open_ : ∃ m, loadManifestForUpload s.staging id = .ok m ∧ m.status = .open ∧
    now 0 ≤ m.expiresAtMs ∧ now 1 ≤ m.expiresAtMs
  complete : s.accepted.length = request.sizeBytes
  checksum : ∃ requested prepared, normalizeSha256 requestSha256 = .ok requested ∧
    normalizeSha256 request.sha256 = .ok prepared ∧
    ∀ expected ∈ requested.or prepared, expected = sha256 s.accepted

/-- What an append owes: at another offset, over the prepared size or on an upload that is not open
it changes nothing. -/
def AppendSafe (s s' : UploadRun) (offset : Nat) (bytes : List UInt8) : Prop :=
  (∀ m, loadManifestForUpload s.staging id = .ok m →
    offset ≠ m.bytesReceived ∨ m.bytesReceived + bytes.length > m.sizeBytes ∨ m.status ≠ .open) →
    s' = s

/-- What a commit owes: refused, it leaves the received bytes, and a correct commit succeeds;
answered `Ok`, the final file holds the received bytes, as many as prepared, with the checksum
prepared. -/
def CommitSafe (s s' : UploadRun) : Option (Except Error UploadCommitResponse) → Prop
  | some (.ok _) => s'.staging.dir (sanitizeFilename request.filename) = some s.accepted ∧
      s.accepted.length = request.sizeBytes ∧
      ∀ e, normalizeSha256 request.sha256 = .ok (some e) → sha256 s.accepted = e
  | _ => s'.staging.dir uploadPart = s.staging.dir uploadPart ∧
      ∀ requestSha256 now, CorrectCommit sha256 id request s' requestSha256 now →
        ∃ resp, ((commitUpload sha256 id requestSha256 now).run [] s'.staging).1 = some (.ok resp)

/-- Every call: an ingested or aborted upload keeps its status as long as it has a manifest, and an
append or a commit keeps what it owes. -/
structure StepSafe (s : UploadRun) (c : UploadCall) : Prop where
  terminal : ∀ m m', loadManifestForUpload s.staging id = .ok m → m.status = .ingested ∨
    m.status = .aborted →
    loadManifestForUpload (s.step sha256 id c).staging id = .ok m' → m'.status = m.status
  append : ∀ offset uploadLength bytes now, c = .append offset uploadLength bytes now →
    AppendSafe id s (s.step sha256 id c) offset bytes
  commit : ∀ requestSha256 now, c = .commit requestSha256 now →
    CommitSafe sha256 id request s (s.step sha256 id c)
      ((commitUpload sha256 id requestSha256 now).run [] s.staging).1

/-- A commit brings no checksum but the prepared one, if there is one, does not come after an ingest
has deleted the file, and is of an upload whose final file has a name of its own. -/
def CommitsAsPrepared (s : UploadRun) : UploadCall → Prop
  | .commit requestSha256 _ =>
      (∀ requested prepared, normalizeSha256 requestSha256 = .ok (some requested) →
        normalizeSha256 request.sha256 = .ok (some prepared) → requested = prepared) ∧
      (∀ m, loadManifestForUpload s.staging id = .ok m → m.status = .ingested →
        (s.staging.dir (sanitizeFilename request.filename)).isSome) ∧
      ∀ m, loadManifestForUpload s.staging id = .ok m → m.status = .open →
        sanitizeFilename request.filename ≠ uploadPart
  | _ => True

/-! ### The invariant -/

/-- What the manifest in force says of the files, by its status. -/
structure Good (s : UploadRun) (m : UploadManifest) : Prop where
  name : m.sanitizedFilename = sanitizeFilename request.filename
  size : m.sizeBytes = request.sizeBytes
  size_pos : 0 < request.sizeBytes
  expected : normalizeSha256 request.sha256 = .ok m.expectedSha256
  held : m.status = .open →
    (s.staging.dir uploadPart).getD [] = s.accepted ∧ s.accepted.length = m.bytesReceived
  committed : m.status = .committed → s.staging.dir m.sanitizedFilename = some s.accepted
  ingested : m.status = .ingested →
    s.staging.dir m.sanitizedFilename = some s.accepted ∨ s.staging.dir m.sanitizedFilename = none
  checked : m.status = .committed ∨ m.status = .ingested → s.accepted.length = m.sizeBytes ∧
    ∀ e, m.expectedSha256 = some e → sha256 s.accepted = e

/-- The upload has no manifest, or one that tells the truth. -/
def Inv (s : UploadRun) : Prop :=
  Gone s.staging ∨ ∃ m, Current id s.staging m ∧ Good sha256 request s m

variable {sha256 id request}

theorem Inv.bytesHeld {s : UploadRun} (hi : Inv sha256 id request s) : BytesHeld id s := by
  intro m hm hst
  rcases hi with hgone | ⟨m', hcur, hgood⟩
  · rw [hgone.load] at hm
    simp at hm
  · obtain rfl : m' = m := by simpa [hcur.load] using hm
    exact hgood.held hst

/-- Where there is no manifest, no call does anything. -/
theorem step_gone {s : UploadRun} (h : Gone s.staging) (c : UploadCall) :
    s.step sha256 id c = s := by
  have hload := h.load id
  cases c with
  | append offset uploadLength bytes now =>
    have hrun : ∃ e, (appendUploadChunk id offset uploadLength bytes now).run [] s.staging =
        (some (.error e), s.staging) := by
      unfold appendUploadChunk
      split
      · exact ⟨_, rfl⟩
      split
      · exact ⟨_, rfl⟩
      · exact ⟨_, by rw [run_loadManifest, hload]⟩
    obtain ⟨e, hrun⟩ := hrun
    simp only [step, hrun]
  | status now => simp only [step, uploadStatus, run_loadManifest, hload]
  | commit requestSha256 now => simp only [step, commitUpload, run_loadManifest, hload]
  | abort now => simp only [step, abortUpload, run_loadManifest, hload]
  | ingest request library now => simp only [step, ingestStagedDocument, run_loadManifest, hload]
  | sweep now => simp only [step, sweepExpiredUploads, Prog.run_get_bind, hload, Prog.run_pure]

theorem Good.of_same {s s' : UploadRun} {m m' : UploadManifest} (hg : Good sha256 request s m)
    (hf : SameFile m m') (ha : s'.accepted = s.accepted)
    (hst : m'.status = .ingested ∨ m'.status = .aborted)
    (hing : m'.status = .ingested → (m.status = .committed ∨ m.status = .ingested) ∧
      (s'.staging.dir m.sanitizedFilename = s.staging.dir m.sanitizedFilename ∨
        s'.staging.dir m.sanitizedFilename = none)) : Good sha256 request s' m' where
  name := hf.sanitizedFilename.trans hg.name
  size := hf.sizeBytes.trans hg.size
  size_pos := hg.size_pos
  expected := hf.expectedSha256 ▸ hg.expected
  held := fun h => by simp [h] at hst
  committed := fun h => by simp [h] at hst
  ingested := fun h => by
    obtain ⟨hm, hd⟩ := hing h
    rw [hf.sanitizedFilename, ha]
    rcases hd with hd | hd
    · rw [hd]
      rcases hm with hm | hm
      · exact .inl (hg.committed hm)
      · exact hg.ingested hm
    · exact .inr hd
  checked := fun h => by
    have hi : m'.status = .ingested := by
      rcases h with h | h
      · simp [h] at hst
      · exact h
    rw [ha, hf.sizeBytes, hf.expectedSha256]
    exact hg.checked (hing hi).1

/-- In an open upload that is complete the received bytes are a file. -/
theorem Good.part {s : UploadRun} {m : UploadManifest} (hg : Good sha256 request s m)
    (ho : m.status = .open)
    (hfull : s.accepted.length = request.sizeBytes) :
    s.staging.dir uploadPart = some s.accepted := by
  have hheld := (hg.held ho).1
  cases hp : s.staging.dir uploadPart with
  | some b => rw [← hheld, hp, Option.getD_some]
  | none =>
    rw [hp, Option.getD_none] at hheld
    rw [← hheld, List.length_nil] at hfull
    exact absurd hfull (Nat.ne_of_lt hg.size_pos)

theorem correctCommit_ok {s : UploadRun} {m : UploadManifest} {requestSha256 : Option String}
    {now : ℕ → Int}
    (hname : m.status = .open → sanitizeFilename request.filename ≠ uploadPart)
    (hcur : Current id s.staging m)
    (hg : Good sha256 request s m) (hc : CorrectCommit sha256 id request s requestSha256 now) :
    ∃ resp, ((commitUpload sha256 id requestSha256 now).run [] s.staging).1 = some (.ok resp) := by
  obtain ⟨m', hm', ho, hnow₀, hnow₁⟩ := hc.open_
  obtain rfl : m = m' := by simpa [hcur.load] using hm'
  obtain ⟨requested, prepared, hreq, hprep, hsum⟩ := hc.checksum
  have hcheck : checkCommit sha256 m (s.staging.dir uploadPart) requestSha256 (now 1) =
      .ok (sha256 s.accepted) := by
    rw [checkCommit_eq_ok]
    obtain rfl : prepared = m.expectedSha256 := by simpa [hg.expected] using hprep.symm
    refine ⟨⟨ho, hnow₁⟩, ?_, s.accepted, hg.part ho hc.complete, ?_, requested, hreq, hsum, rfl⟩
    · rw [← (hg.held ho).2, hc.complete, hg.size]
    · rw [hc.complete, hg.size]
  have hexp : uploadIsExpiredAt m (now 0) = false := by
    simp [uploadIsExpiredAt, ho, hnow₀]
  obtain ⟨r, st, hrun⟩ := Prog.run_nil (commitUpload sha256 id requestSha256 now) s.staging
  have hout :=
    Prog.wp_reply (commitUpload_wp hcur (hg.name ▸ hname) requestSha256 now) (by simp) hrun
  rw [hrun]
  cases hout with
  | refused e why => exact absurd hcheck (why ho hexp _)
  | replayed resp status => exact ⟨resp, rfl⟩
  | moved resp bytes st part check current final => exact ⟨resp, rfl⟩

/-- The status of a finished upload stays if the new manifest keeps it. -/
theorem terminal_of_current {s s' : UploadRun} {m m' : UploadManifest}
    (hcur : Current id s.staging m) (hcur' : Current id s'.staging m')
    (hst : m.status = .ingested ∨ m.status = .aborted → m'.status = m.status) :
    ∀ m₁ m₂, loadManifestForUpload s.staging id = .ok m₁ → m₁.status = .ingested ∨
    m₁.status = .aborted →
      loadManifestForUpload s'.staging id = .ok m₂ → m₂.status = m₁.status := by
  intro m₁ m₂ h₁ hm₁ h₂
  obtain rfl : m = m₁ := by simpa [hcur.load] using h₁
  obtain rfl : m' = m₂ := by simpa [hcur'.load] using h₂
  exact hst hm₁

section Live

variable {s : UploadRun} {m : UploadManifest}

theorem append_step (hcur : Current id s.staging m) (hg : Good sha256 request s m) (offset : Nat)
    (uploadLength : Option Nat) (bytes : List UInt8) (now : ℕ → Int) :
    Inv sha256 id request (s.step sha256 id (.append offset uploadLength bytes now)) ∧
      StepSafe sha256 id request s (.append offset uploadLength bytes now) := by
  obtain ⟨r, st, hrun⟩ :=
    Prog.run_nil (appendUploadChunk id offset uploadLength bytes now) s.staging
  have hout :=
    Prog.wp_reply (appendUploadChunk_wp hcur offset uploadLength bytes now) (by simp) hrun
  cases hout with
  | refused e _ =>
    have hstep : s.step sha256 id (.append offset uploadLength bytes now) = s := by
      simp only [step, hrun]
    refine ⟨?_, ?_, ?_, nofun⟩
    · rw [hstep]
      exact .inr ⟨m, hcur, hg⟩
    · rw [hstep]
      exact terminal_of_current hcur hcur fun _ => rfl
    · intro _ _ _ _ _
      rw [hstep]
      exact fun _ => rfl
  | written resp next st check current hexists dir =>
    have hstep : s.step sha256 id (.append offset uploadLength bytes now) =
        ⟨st, s.accepted ++ bytes⟩ := by
      simp only [step, hrun]
    obtain ⟨⟨ho, -⟩, -, hoff, -, hle, -, -, rfl⟩ := checkAppend_eq_ok.1 check
    obtain ⟨hpart, hlen⟩ := hg.held ho
    have hgood : Good sha256 request ⟨st, s.accepted ++ bytes⟩
        { m with bytesReceived := m.bytesReceived + bytes.length } := {
      name := hg.name
      size := hg.size
      size_pos := hg.size_pos
      expected := hg.expected
      held := fun _ => by
        rw [Staging.dir_congr dir, Staging.setFile_some_dir hexists, if_pos rfl, hpart]
        exact ⟨rfl, by rw [List.length_append, hlen]⟩
      committed := fun h => by simp [ho] at h
      ingested := fun h => by simp [ho] at h
      checked := fun h => by simp [ho] at h }
    refine ⟨hstep ▸ .inr ⟨_, current, hgood⟩, ?_, ?_, nofun⟩
    · rw [hstep]
      exact terminal_of_current hcur current fun h => by simp [ho] at h
    · intro _ _ _ _ heq hbad
      obtain ⟨rfl, rfl, rfl, rfl⟩ := UploadCall.append.inj heq
      rcases hbad m hcur.load with h | h | h
      · exact absurd hoff h
      · omega
      · exact absurd ho h

theorem commit_step (hcur : Current id s.staging m)
    (hg : Good sha256 request s m) (requestSha256 : Option String) (now : ℕ → Int)
    (hc : CommitsAsPrepared id request s (.commit requestSha256 now)) :
    Inv sha256 id request (s.step sha256 id (.commit requestSha256 now)) ∧
      StepSafe sha256 id request s (.commit requestSha256 now) := by
  have hname : m.status = .open → sanitizeFilename request.filename ≠ uploadPart :=
    hc.2.2 m hcur.load
  obtain ⟨r, st, hrun⟩ := Prog.run_nil (commitUpload sha256 id requestSha256 now) s.staging
  have hout :=
    Prog.wp_reply (commitUpload_wp hcur (hg.name ▸ hname) requestSha256 now) (by simp) hrun
  have hstep : s.step sha256 id (.commit requestSha256 now) = ⟨st, s.accepted⟩ := by
    simp only [step, hrun]
  have hprep : ∀ e, normalizeSha256 request.sha256 = .ok (some e) → m.expectedSha256 = some e := by
    intro e he
    simpa [hg.expected] using he
  cases hout with
  | refused e why =>
    refine ⟨hstep ▸ .inr ⟨m, hcur, hg⟩, ?_, nofun, ?_⟩
    · rw [hstep]
      exact terminal_of_current hcur hcur fun _ => rfl
    · intro _ _ heq
      obtain ⟨rfl, rfl⟩ := UploadCall.commit.inj heq
      rw [hstep, hrun]
      exact ⟨rfl, fun _ _ hcc => correctCommit_ok hname hcur hg hcc⟩
  | replayed resp status =>
    refine ⟨hstep ▸ .inr ⟨m, hcur, hg⟩, ?_, nofun, ?_⟩
    · rw [hstep]
      exact terminal_of_current hcur hcur fun _ => rfl
    · intro _ _ heq
      obtain ⟨rfl, rfl⟩ := UploadCall.commit.inj heq
      rw [hstep, hrun]
      obtain ⟨hlen, hsum⟩ := hg.checked status
      refine ⟨?_, hg.size ▸ hlen, fun e he => hsum e (hprep e he)⟩
      rw [← hg.name]
      rcases status with hst | hst
      · exact hg.committed hst
      · rcases hg.ingested hst with h | h
        · exact h
        · have := hc.2.1 m hcur.load hst
          rw [← hg.name, h] at this
          simp at this
  | moved resp bytes st part check current final =>
    obtain ⟨⟨ho, -⟩, hfull, bytes', hpart', hlen, requested, hreq, hsum, -⟩ :=
      checkCommit_eq_ok.1 check
    obtain rfl : bytes = bytes' := by simpa [part] using hpart'
    obtain rfl : bytes = s.accepted := by simpa [part] using (hg.held ho).1
    -- the prepared checksum is the one that was checked
    have hexp : ∀ e, m.expectedSha256 = some e → sha256 s.accepted = e := by
      intro e he
      cases requested with
      | none => exact (hsum e (by simp [he])).symm
      | some q =>
        rw [← hc.1 q e hreq (he ▸ hg.expected)]
        exact (hsum q (by simp)).symm
    have hgood : Good sha256 request ⟨st, s.accepted⟩
        { m with actualSha256 := some (sha256 s.accepted), status := .committed } := {
      name := hg.name
      size := hg.size
      size_pos := hg.size_pos
      expected := hg.expected
      held := nofun
      committed := fun _ => final
      ingested := nofun
      checked := fun _ => ⟨hlen, hexp⟩ }
    refine ⟨hstep ▸ .inr ⟨_, current, hgood⟩, ?_, nofun, ?_⟩
    · rw [hstep]
      exact terminal_of_current hcur current fun h => by simp [ho] at h
    · intro _ _ heq
      obtain ⟨rfl, rfl⟩ := UploadCall.commit.inj heq
      rw [hstep, hrun]
      exact ⟨hg.name ▸ final, hg.size ▸ hlen, fun e he => hexp e (hprep e he)⟩

/-- A call other than append and commit. -/
theorem StepSafe.of_terminal {c : UploadCall} (ha : ∀ o l b n, c ≠ .append o l b n)
    (hc : ∀ r n, c ≠ .commit r n)
    (ht : ∀ m₁ m₂, loadManifestForUpload s.staging id = .ok m₁ → m₁.status = .ingested ∨
      m₁.status = .aborted →
      loadManifestForUpload (s.step sha256 id c).staging id = .ok m₂ → m₂.status = m₁.status) :
    StepSafe sha256 id request s c :=
  ⟨ht, fun _ _ _ _ h => absurd h (ha _ _ _ _), fun _ _ h => absurd h (hc _ _)⟩

theorem abort_step (hcur : Current id s.staging m) (hg : Good sha256 request s m) (now : ℕ → Int) :
    Inv sha256 id request (s.step sha256 id (.abort now)) ∧
    StepSafe sha256 id request s (.abort now) := by
  obtain ⟨r, st, hrun⟩ := Prog.run_nil (abortUpload id now) s.staging
  have hstep : s.step sha256 id (.abort now) = ⟨st, s.accepted⟩ := by simp only [step, hrun]
  rcases Prog.wp_reply (abortUpload_wp hcur now) (by simp)
    hrun with rfl | ⟨hi, ha, m', hcur', hst', hf⟩
  · refine ⟨hstep ▸ .inr ⟨m, hcur, hg⟩, .of_terminal nofun nofun ?_⟩
    rw [hstep]
    exact terminal_of_current hcur hcur fun _ => rfl
  · have hg' : Good sha256 request ⟨st, s.accepted⟩ m' :=
      hg.of_same hf rfl (.inr hst') fun h => by simp [hst'] at h
    refine ⟨hstep ▸ .inr ⟨m', hcur', hg'⟩, .of_terminal nofun nofun ?_⟩
    rw [hstep]
    refine terminal_of_current hcur hcur' fun h => ?_
    rcases h with h | h
    · exact absurd h hi
    · exact absurd h ha

theorem ingest_step (hcur : Current id s.staging m) (hg : Good sha256 request s m)
    (req : StagedIngestRequest) (library : Except Error LibraryIngest) (now : ℕ → Int) :
    Inv sha256 id request (s.step sha256 id (.ingest req library now)) ∧
      StepSafe sha256 id request s (.ingest req library now) := by
  obtain ⟨r, st, hrun⟩ := Prog.run_nil (ingestStagedDocument id req library now) s.staging
  have hstep : s.step sha256 id (.ingest req library now) = ⟨st, s.accepted⟩ := by
    simp only [step, hrun]
  rcases Prog.wp_reply (ingestStagedDocument_wp hcur req library now) (by simp) hrun with
    rfl | ⟨hm, ⟨m', hcur', hst', hf⟩, hd⟩
  · refine ⟨hstep ▸ .inr ⟨m, hcur, hg⟩, .of_terminal nofun nofun ?_⟩
    rw [hstep]
    exact terminal_of_current hcur hcur fun _ => rfl
  · have hg' : Good sha256 request ⟨st, s.accepted⟩ m' :=
      hg.of_same hf rfl (.inl hst') fun _ => ⟨hm, hd⟩
    refine ⟨hstep ▸ .inr ⟨m', hcur', hg'⟩, .of_terminal nofun nofun ?_⟩
    rw [hstep]
    refine terminal_of_current hcur hcur' fun h => ?_
    rcases h with h | h
    · exact hst'.trans h.symm
    · rcases hm with hm | hm
      · simp [hm] at h
      · simp [hm] at h

theorem sweep_step (hcur : Current id s.staging m) (hg : Good sha256 request s m) (now : ℕ → Int) :
    Inv sha256 id request (s.step sha256 id (.sweep now)) ∧
    StepSafe sha256 id request s (.sweep now) := by
  obtain ⟨r, st, hrun⟩ := Prog.run_nil (sweepExpiredUploads id now) s.staging
  have hstep : s.step sha256 id (.sweep now) = ⟨st, s.accepted⟩ := by simp only [step, hrun]
  rcases Prog.wp_reply (sweepExpiredUploads_wp now) (by simp) hrun with rfl | hgone
  · refine ⟨hstep ▸ .inr ⟨m, hcur, hg⟩, .of_terminal nofun nofun ?_⟩
    rw [hstep]
    exact terminal_of_current hcur hcur fun _ => rfl
  · refine ⟨hstep ▸ .inl hgone, .of_terminal nofun nofun ?_⟩
    intro m₁ m₂ _ _ h₂
    rw [hstep, hgone.load] at h₂
    simp at h₂

end Live

/-- What a call makes of the invariant, and of what it owes. -/
theorem Inv.step {s : UploadRun} (hi : Inv sha256 id request s) (c : UploadCall)
    (hc : CommitsAsPrepared id request s c) :
    Inv sha256 id request (s.step sha256 id c) ∧ StepSafe sha256 id request s c := by
  rcases hi with hgone | ⟨m, hcur, hg⟩
  · have hload := hgone.load id
    have hstep : s.step sha256 id c = s := step_gone hgone c
    refine ⟨?_, fun m₁ _ h₁ => by simp [hload] at h₁, fun _ _ _ _ _ _ => hstep, ?_⟩
    · rw [hstep]
      exact .inl hgone
    · rintro requestSha256 now rfl
      rw [hstep, commitUpload, run_loadManifest, hload]
      refine ⟨rfl, fun _ _ hcc => ?_⟩
      obtain ⟨m, hm, -⟩ := hcc.open_
      simp [hload] at hm
  · cases c with
    | append offset uploadLength bytes now =>
      exact append_step hcur hg offset uploadLength bytes now
    | status now =>
      have hstep : s.step sha256 id (.status now) = s := by
        simp only [UploadRun.step, uploadStatus, run_loadManifest, hcur.load, Prog.run_pure]
      refine ⟨?_, .of_terminal nofun nofun ?_⟩
      · rw [hstep]
        exact .inr ⟨m, hcur, hg⟩
      · rw [hstep]
        exact terminal_of_current hcur hcur fun _ => rfl
    | commit requestSha256 now => exact commit_step hcur hg requestSha256 now hc
    | abort now => exact abort_step hcur hg now
    | ingest req library now => exact ingest_step hcur hg req library now
    | sweep now => exact sweep_step hcur hg now

theorem inv_prepared (sha256 : List UInt8 → String) (id : String) (request : UploadPrepareRequest)
    (allowedExtensions : List String) (defaultStoreOriginalFile : Bool) (now : ℕ → Int) :
    Inv sha256 id request (prepared id request allowedExtensions defaultStoreOriginalFile now) := by
  obtain ⟨r, st, hrun⟩ := Prog.run_nil
    (prepareUpload id request allowedExtensions defaultStoreOriginalFile now) .empty
  have hprep : prepared id request allowedExtensions defaultStoreOriginalFile now = ⟨st, []⟩ := by
    rw [prepared, hrun]
  rw [hprep]
  rcases Prog.wp_reply (prepareUpload_wp id request allowedExtensions defaultStoreOriginalFile now)
    (by simp) hrun with ⟨rfl, -⟩ | ⟨e, hvalid, he, hcur, hd⟩
  · exact .inl fun _ => rfl
  · exact .inr ⟨_, hcur, {
      name := rfl
      size := rfl
      size_pos := (validatePrepareRequest_eq_ok hvalid).1
      expected := he
      held := fun _ => ⟨by rw [Staging.dir, hd]; rfl, rfl⟩
      committed := nofun
      ingested := nofun
      checked := fun h => by simp [preparedManifest] at h }⟩

/-- In every run in which the commits keep to what was prepared, every state holds the bytes and
every call is safe. -/
theorem uploadBytes_safe (sha256 : List UInt8 → String) (id : String)
    (request : UploadPrepareRequest)
    (allowedExtensions : List String) (defaultStoreOriginalFile : Bool) (now : ℕ → Int)
    (calls : List UploadCall) (hg : Run.Guarded (step sha256 id) (CommitsAsPrepared id request)
      (prepared id request allowedExtensions defaultStoreOriginalFile now) calls) :
    Run.Always (step sha256 id) (BytesHeld id)
        (prepared id request allowedExtensions defaultStoreOriginalFile now) calls ∧
      Run.Guarded (step sha256 id) (StepSafe sha256 id request)
        (prepared id request allowedExtensions defaultStoreOriginalFile now) calls := by
  have h₀ := inv_prepared sha256 id request allowedExtensions defaultStoreOriginalFile now
  refine ⟨hg.always (Inv sha256 id request) (fun s c hi hc => (hi.step c hc).1)
    (fun s hi => hi.bytesHeld) h₀, ?_⟩
  refine (hg.strengthen (Inv sha256 id request) (fun s c hi hc => (hi.step c hc).1) h₀).mono ?_
  exact fun s c h => (h.1.step c h.2).2

end UploadRun

/-! ### The two ways out -/

namespace Hi

def uploadId : String := "0190a5f0-0000-7000-8000-000000000002"

/-- The two bytes of the file, and their SHA-256. -/
def bytes : List UInt8 := [0x68, 0x69]

def digest : String := "8f434346648f6b96df89dda901c5176b10a6d83961dd3c1ac88b59b2dc327aa4"

def sha256 (_ : List UInt8) : String := digest

def request (filename : String) (sha256 : Option String) : UploadPrepareRequest :=
  ⟨filename, none, 2, sha256⟩

def clock (t : Int) (_ : ℕ) : Int := t

def prepared (request : UploadPrepareRequest) : UploadRun :=
  UploadRun.prepared uploadId request ["md"] true (clock 1000)

/-- The upload after its only chunk. -/
def received (request : UploadPrepareRequest) : UploadRun :=
  (prepared request).step sha256 uploadId (.append 0 none bytes (clock 2000))

end Hi

namespace UploadRun

open Hi

/-- The commit of an upload named `upload.part` deletes the received bytes. -/
theorem partName_not_safe :
    ¬ Run.Guarded (step sha256 uploadId) (StepSafe sha256 uploadId (request "upload.part" none))
      (UploadRun.prepared uploadId (request "upload.part" none) ["md"] true (clock 1000))
      [.append 0 none bytes (clock 2000), .commit none (clock 3000)] := by
  rintro ⟨-, hsafe, -⟩
  have hsafe : StepSafe sha256 uploadId (request "upload.part" none)
      (received (request "upload.part" none))
    (.commit none (clock 3000)) := hsafe
  have hcommit := hsafe.commit none (clock 3000) rfl
  have hreply : ((commitUpload sha256 uploadId none (clock 3000)).run []
      (received (request "upload.part" none)).staging).1 =
      some (.error (.storage "commit upload")) := by
    decide +kernel
  have hbefore : (received (request "upload.part" none)).staging.dir uploadPart = some bytes := by
    decide +kernel
  have hafter : ((received (request "upload.part" none)).step sha256 uploadId
      (.commit none (clock 3000))).staging.dir uploadPart = none := by decide +kernel
  rw [hreply] at hcommit
  have hkept := hcommit.1
  rw [hbefore, hafter] at hkept
  cases hkept

/-- A checksum given at prepare that is not the file's. -/
def otherDigest : String := "0000000000000000000000000000000000000000000000000000000000000000"

/-- A commit that brings a checksum of its own is answered `Ok` whatever was prepared. -/
theorem ownChecksum_not_safe :
    ¬ StepSafe sha256 uploadId (request "notes.md" (some otherDigest))
    (received (request "notes.md" (some otherDigest)))
      (.commit (some digest) (clock 3000)) := by
  intro hsafe
  have hcommit := hsafe.commit (some digest) (clock 3000) rfl
  have hreply : ((commitUpload sha256 uploadId (some digest) (clock 3000)).run []
      (received (request "notes.md" (some otherDigest))).staging).1 =
      some (.ok ⟨uploadId, stagedUri uploadId, "notes.md", "application/octet-stream", 2,
        digest⟩) := by
    decide +kernel
  have hprepared : normalizeSha256 (request "notes.md" (some otherDigest)).sha256 =
      .ok (some otherDigest) := by
    decide +kernel
  rw [hreply] at hcommit
  exact absurd (hcommit.2.2 otherDigest hprepared) (by decide +kernel)

/-- An upload with its own name and no second checksum. -/
theorem uploadBytes_safe_committed :
    Run.Always (step sha256 uploadId) (BytesHeld uploadId)
        (UploadRun.prepared uploadId (request "notes.md" (some digest)) ["md"] true (clock 1000))
        [.append 0 none bytes (clock 2000), .commit none (clock 3000)] ∧
      Run.Guarded (step sha256 uploadId)
      (StepSafe sha256 uploadId (request "notes.md" (some digest)))
        (UploadRun.prepared uploadId (request "notes.md" (some digest)) ["md"] true (clock 1000))
        [.append 0 none bytes (clock 2000), .commit none (clock 3000)] := by
  refine uploadBytes_safe sha256 uploadId (request "notes.md" (some digest)) ["md"]
    true (clock 1000) _
    ⟨trivial, ⟨nofun, fun m hm hst => ?_, fun _ _ _ => by decide +kernel⟩, trivial⟩
  have hm : loadManifestForUpload (received (request "notes.md" (some digest))).staging uploadId =
      .ok m := hm
  have hopen :
      (loadManifestForUpload (received (request "notes.md" (some digest))).staging uploadId).map
      (·.status) = .ok .open := by decide +kernel
  rw [hm] at hopen
  have ho : m.status = .open := Except.ok.inj hopen
  rw [ho] at hst
  cases hst

end UploadRun

end Solo
