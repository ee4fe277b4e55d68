import Solo.Upload.Bytes

/-!
# Uploads after a crash

Appends, commits and aborts of one upload, each cut by a crash or not. `Resumable` says that from
the state after a restart the upload can be brought to its end: appends from the `next_offset` that
`upload_status` reports, then a commit, end in `Committed` with the bytes recorded so far followed
by the rest, unless the upload was aborted or has expired.

Each call changes the staged bytes before it writes the manifest. A crash after that change and
before the new manifest is whole in `tmp` leaves bytes and manifest at odds, and every later call
refuses them (`appendCut_not_resumable`). `resumable_always`: outside that gap a crash does no harm.
-/

namespace Solo

open Crash Result

/-! ### Past the gap -/

section Gap

variable {sha256 : List UInt8 → String} {id : String} {s : Staging} {m m' : UploadManifest}
  {α : Type}
variable {es : List Crash.Event} {now : ℕ → Int}

/-- The manifest `m` is in force over the files `fs`, whether the call was answered `reply` or
cut. -/
def Recorded (id : String) (m : UploadManifest) (fs : Option (List (String × List UInt8)))
    (reply : Except Error α) (out : Option (Except Error α) × Staging) : Prop :=
  (out.1 = none ∨ out.1 = some reply) ∧ Current id out.2 m ∧ out.2.files = fs

theorem recorded_of_wp {c : UploadProg α} {fs : Option (List (String × List UInt8))}
    {reply : Except Error α}
    (h : c.wp Crash.Event.NoError (fun r s' => r = reply ∧ Current id s' m ∧ s'.files = fs)
      (fun s' => Current id s' m ∧ s'.files = fs) s) (hes : ∀ e ∈ es, e.NoError) :
    Recorded id m fs reply (c.run es s) := by
  have hout := Prog.wp_run h hes
  generalize c.run es s = out at hout
  obtain ⟨r, s'⟩ := out
  cases r with
  | none => exact ⟨.inl rfl, hout⟩
  | some r =>
    obtain ⟨rfl, h'⟩ := hout
    exact ⟨.inr rfl, h'⟩

/-- Once `tmp` is whole the new manifest is in force, wherever the rest of the write is cut. -/
theorem Current.publish (h : Current id s m) (hid : m'.uploadId = id) :
    publishManifest.wp Crash.Event.NoError (fun r s' => r = .ok () ∧ Current id s' m' ∧
      s'.files = s.files) (fun s' => Current id s' m' ∧ s'.files = s.files) (s.staged m') := by
  obtain ⟨-, staged, stable, hs, -⟩ := h
  refine Prog.wp_mono ?_ ?_ (publishManifest_wp (hs.of_staged m'))
  · rintro r s' ⟨rfl, h', hd⟩
    exact ⟨rfl, ⟨hid, _, _, h', rfl⟩, hd⟩
  · rintro s' ⟨h' | h', hd⟩
    · exact ⟨⟨hid, _, _, h', rfl⟩, hd⟩
    · exact ⟨⟨hid, _, _, h', rfl⟩, hd⟩

theorem Current.writeOr_staged {reply : Except Error α} {rollback : UploadProg Unit}
    (h : Current id s m) (hid : m'.uploadId = id) (hes : ∀ e ∈ es, e.NoError) :
    Recorded id m' s.files reply
    ((writeManifestOr m' rollback reply).run (.ok :: .ok :: es) s) := by
  have hrun {β : Type} (f : Except Error Unit → UploadProg β) :
      ((writeManifest m').attempt >>= f).run (.ok :: .ok :: es) s =
        (publishManifest.attempt >>= f).run es (s.staged m') := rfl
  unfold writeManifestOr
  rw [hrun]
  refine recorded_of_wp ?_ hes
  rw [Prog.wp_bind, Prog.wp_attempt]
  refine Prog.wp_mono ?_ (fun _ h' => h') (h.publish hid)
  rintro r s' ⟨rfl, h'⟩
  exact ⟨rfl, h'⟩

theorem Current.write_staged {a : α} (h : Current id s m) (hid : m'.uploadId = id)
    (hes : ∀ e ∈ es, e.NoError) :
    Recorded id m' s.files (.ok a)
    ((writeManifest m' >>= fun _ => pure a).run (.ok :: .ok :: es) s) := by
  have hrun : (writeManifest m' >>= fun _ => (pure a : UploadProg α)).run (.ok :: .ok :: es) s =
      (publishManifest >>= fun _ => pure a).run es (s.staged m') := rfl
  rw [hrun]
  refine recorded_of_wp ?_ hes
  rw [Prog.wp_bind]
  refine Prog.wp_mono ?_ (fun _ h' => h') (h.publish hid)
  rintro r s' ⟨rfl, h'⟩
  exact ⟨rfl, h'⟩

/-- An append is refused before its first operation, or it is the write to `upload.part` and the
manifest. -/
theorem appendUploadChunk_run (h : Current id s m) (offset : Nat) (uploadLength : Option Nat)
    (bytes : List UInt8) (now : ℕ → Int) :
    (∃ e, ∀ es, (appendUploadChunk id offset uploadLength bytes now).run es s =
      (some (.error e), s)) ∨
      ∃ next reply, checkAppend m (s.dir uploadPart) offset uploadLength bytes (now 0) = .ok next ∧
      bytes ≠ [] ∧
        bytes.length ≤ recommendedChunkBytes ∧
        ∀ es, (appendUploadChunk id offset uploadLength bytes now).run es s =
          (UploadFile.append uploadPart bytes >>= fun _ =>
            writeManifestOr { m with bytesReceived := next }
            (UploadFile.setLen uploadPart m.bytesReceived) (.ok reply)).run es s := by
  unfold appendUploadChunk
  split
  · exact .inl ⟨_, fun _ => rfl⟩
  split
  · exact .inl ⟨_, fun _ => rfl⟩
  next hne hlarge =>
  cases hc : checkAppend m (s.dir uploadPart) offset uploadLength bytes (now 0) with
  | error e =>
    refine .inl ⟨e, fun es => ?_⟩
    rw [run_loadManifest, h.load]
    dsimp only
    rw [Prog.run_get_bind, hc, Prog.ofExcept_bind_error, Prog.run_throw]
  | ok next =>
    refine .inr ⟨next, statusFromManifest { m with bytesReceived := next } (now 1), rfl, hne,
      Nat.not_lt.1 hlarge, fun es => ?_⟩
    rw [run_loadManifest, h.load]
    dsimp only
    rw [Prog.run_get_bind, hc, Prog.ofExcept_bind_ok]

/-- A commit is answered before its first operation, or, where no file has the final name, it makes
sure of the directory, and is the move and the manifest. -/
theorem commitUpload_run (h : Current id s m)
    (hfinal : m.status = .open → s.dir m.sanitizedFilename = none)
    (requestSha256 : Option String) (now : ℕ → Int) :
    (∃ r, ∀ es, (commitUpload sha256 id requestSha256 now).run es s = (some r, s)) ∨
      ∃ actual, checkCommit sha256 m (s.dir uploadPart) requestSha256 (now 1) = .ok actual ∧
        uploadIsExpiredAt m (now 0) = false ∧
        ∀ es, (commitUpload sha256 id requestSha256 now).run es s =
          (UploadFile.createDirAll >>= fun _ =>
            moveUpload { m with actualSha256 := some actual, status := .committed }).run es s := by
  have hrun : ∀ es, (commitUpload sha256 id requestSha256 now).run es s =
      (commitLoadedUpload sha256 m requestSha256 now).run es s := fun es => by
    rw [commitUpload, run_loadManifest, h.load]
  simp only [hrun]
  unfold commitLoadedUpload
  split
  · exact .inl ⟨_, fun _ => rfl⟩
  next hexp =>
  cases hst : m.status with
  | committed => exact .inl ⟨_, fun _ => rfl⟩
  | ingested => exact .inl ⟨_, fun _ => rfl⟩
  | aborted => exact .inl ⟨_, fun _ => rfl⟩
  | busy => exact .inl ⟨_, fun _ => rfl⟩
  | expired => exact .inl ⟨_, fun _ => rfl⟩
  | «open» =>
    simp only [commitOpenUpload, Prog.run_get_bind]
    cases hc : checkCommit sha256 m (s.dir uploadPart) requestSha256 (now 1) with
    | error e => exact .inl ⟨_, fun _ => rfl⟩
    | ok actual =>
      obtain ⟨-, -, bytes, hpart, -⟩ := checkCommit_eq_ok.1 hc
      have hdir : s.makeDir = s := Staging.makeDir_eq (Staging.files_isSome_of_dir hpart)
      refine .inr ⟨actual, rfl, eq_false_of_ne_true hexp, fun es => ?_⟩
      rw [Prog.ofExcept_bind_ok, UploadFile.createDirAll, Prog.op_bind, Prog.op_bind]
      -- the directory is there, and the final name is free
      have hget : ∀ es, (Prog.get (fun s => (s.dir m.sanitizedFilename).isSome) >>= fun taken =>
          (do
            if taken then UploadFile.removeIfExists m.sanitizedFilename
            moveUpload { m with actualSha256 := some actual, status := .committed } :
              UploadProg _)).run es s.makeDir =
          (moveUpload { m with actualSha256 := some actual, status := .committed }).run es
          s.makeDir := by
        intro es
        rw [Prog.run_get_bind, hdir, hfinal hst]
        rfl
      rcases es with _ | ⟨(_ | n | n), es⟩
      · exact hget _
      · exact hget _
      · rfl
      · rfl

/-- An abort is answered before its first operation, or it removes both files and the directory, and
writes the manifest. -/
theorem abortUpload_run (h : Current id s m) (now : ℕ → Int) :
    (∃ r, ∀ es, (abortUpload id now).run es s = (some r, s)) ∨
      (m.status ≠ .ingested ∧ m.status ≠ .aborted) ∧ ∃ m' resp, m'.status = .aborted ∧
      SameFile m m' ∧ m'.uploadId = id ∧
        ∀ es, (abortUpload id now).run es s =
          (UploadFile.removeIfExists uploadPart >>= fun _ =>
            UploadFile.removeIfExists m.sanitizedFilename >>=
            fun _ => UploadFile.removeDirIfEmpty >>= fun _ => writeManifest m' >>= fun _ =>
              pure resp).run es s := by
  have hrun : ∀ es, (abortUpload id now).run es s = (abortLoadedUpload id m now).run es s :=
    fun es => by
    rw [abortUpload, run_loadManifest, h.load]
  simp only [hrun]
  unfold abortLoadedUpload
  split
  · exact .inl ⟨_, fun _ => rfl⟩
  split
  · exact .inl ⟨_, fun _ => rfl⟩
  · next hi ha =>
    refine .inr ⟨⟨hi, ha⟩, { m with
      status := .aborted, expiresAtMs := terminalReceiptExpiresAtMs (now 0), ingestResult := none },
      ⟨id, .aborted, (s.dir uploadPart).isSome || (s.dir m.sanitizedFilename).isSome, false,
        (s.dir uploadPart).isSome, (s.dir m.sanitizedFilename).isSome⟩, rfl, ⟨rfl, rfl, rfl, rfl⟩,
          h.1, fun es => ?_⟩
    rw [Prog.run_get_bind, Prog.run_get_bind]

end Gap

/-! ### Runs -/

/-- An upload and the chunks its manifest has recorded: those of the appends that were answered
`Ok`, and of those cut once `tmp` was whole. -/
structure ResumeRun where
  staging : Staging
  recorded : List UInt8

inductive CrashCall
  | append (offset : Nat) (uploadLength : Option Nat) (bytes : List UInt8) (now : ℕ → Int) (crash :
    Option (ℕ × ℕ))
  | commit (requestSha256 : Option String) (now : ℕ → Int) (crash : Option (ℕ × ℕ))
  | abort (now : ℕ → Int) (crash : Option (ℕ × ℕ))

namespace ResumeRun

variable (sha256 : List UInt8 → String) (id : String) (request : UploadPrepareRequest)

def prepared (allowedExtensions : List String) (defaultStoreOriginalFile : Bool) (now : ℕ → Int) :
    ResumeRun :=
  ⟨(UploadRun.prepared id request allowedExtensions defaultStoreOriginalFile now).staging, []⟩

/-- The first `k` operations are carried out. -/
def reaches (k : ℕ) : Option (ℕ × ℕ) → Bool
  | none => true
  | some (i, _) => k ≤ i

def step (s : ResumeRun) : CrashCall → ResumeRun
  | .append offset uploadLength bytes now crash =>
    match (appendUploadChunk id offset uploadLength bytes now).run (Crash.Event.crashAt crash)
      s.staging with
    | (some (.ok _), staging) => ⟨staging, s.recorded ++ bytes⟩
    | (some (.error _), staging) => ⟨staging, s.recorded⟩
    | (none, staging) => ⟨staging, if reaches 3 crash then s.recorded ++ bytes else s.recorded⟩
  | .commit requestSha256 now crash =>
    { s with staging := ((commitUpload sha256 id requestSha256 now).run (Crash.Event.crashAt crash) s.staging).2 }
  | .abort now crash =>
    { s with staging := ((abortUpload id now).run (Crash.Event.crashAt crash) s.staging).2 }

/-- Appends of the chunks, one after the other, all answered `Ok`. -/
def appendAll (now : ℕ → Int) : Nat → List (List UInt8) → Staging → Option Staging
  | _, [], s => some s
  | offset, c :: cs, s =>
    match (appendUploadChunk id offset none c now).run [] s with
    | (some (.ok _), s') => appendAll now (offset + c.length) cs s'
    | _ => none

/-- Appends from `next_offset` bring `rest`, and a commit ends in `Committed` with all the bytes. -/
def Completes (s : ResumeRun) (rest : List UInt8) (now : ℕ → Int) : Prop :=
  ∃ resp chunks s₁ committed s₂ m, (uploadStatus id now).run [] s.staging =
    (some (.ok resp), s.staging) ∧
    chunks.flatten = rest ∧ appendAll id now resp.nextOffset chunks s.staging = some s₁ ∧
    (commitUpload sha256 id none now).run [] s₁ = (some (.ok committed), s₂) ∧
    loadManifestForUpload s₂ id = .ok m ∧ m.status = .committed ∧
    s₂.dir (sanitizeFilename request.filename) = some (s.recorded ++ rest)

/-- Unless it was aborted or has expired, the upload can be completed by every `rest` that has the
prepared size, and the prepared checksum if there is one. -/
def Resumable (s : ResumeRun) : Prop :=
  ∃ m, loadManifestForUpload s.staging id = .ok m ∧ (m.status = .aborted ∨
    ∀ now rest, (∀ i, now i ≤ m.expiresAtMs) → (s.recorded ++ rest).length = request.sizeBytes →
      (∀ e, normalizeSha256 request.sha256 = .ok (some e) → e = sha256 (s.recorded ++ rest)) →
      Completes sha256 id request s rest now)

/-- The crash falls between the change of the staged bytes, or of their directory, and the end of
the new `tmp`. An abort that finds no bytes changes nothing until it removes the directory. -/
def InGap (s : ResumeRun) : CrashCall → Prop
  | .append _ _ _ _ (some (0, n)) => 1 < n
  | .append _ _ _ _ (some (1, _)) | .append _ _ _ _ (some (2, _)) => True
  | .commit _ _ (some (2, _)) | .commit _ _ (some (3, _)) => True
  | .abort _ (some (1, _)) | .abort _ (some (2, _)) =>
    (s.staging.dir uploadPart).getD [] ≠ [] ∨ s.staging.dir (sanitizeFilename request.filename) ≠
      none
  | .abort _ (some (3, _)) | .abort _ (some (4, _)) => True
  | _ => False

/-- The call passes its checks, and so reaches its operations. -/
def Starts (s : ResumeRun) : CrashCall → Prop
  | .append offset uploadLength bytes now _ =>
    bytes ≠ [] ∧ bytes.length ≤ recommendedChunkBytes ∧
      ∃ m next, loadManifestForUpload s.staging id = .ok m ∧
      checkAppend m (s.staging.dir uploadPart) offset uploadLength bytes (now 0) = .ok next
  | .commit requestSha256 now _ =>
    ∃ m actual, loadManifestForUpload s.staging id = .ok m ∧ uploadIsExpiredAt m (now 0) = false ∧
      checkCommit sha256 m (s.staging.dir uploadPart) requestSha256 (now 1) = .ok actual
  | .abort _ _ => ∃ m, loadManifestForUpload s.staging id = .ok m ∧ m.status ≠ .ingested ∧
    m.status ≠ .aborted

/-- The call is not cut in its gap. -/
def OutsideGap (s : ResumeRun) (c : CrashCall) : Prop := Starts sha256 id s c → ¬ InGap request s c

/-! ### The invariant -/

/-- What the manifest in force says of the staged bytes, by its status. -/
structure Sound (s : ResumeRun) (m : UploadManifest) : Prop where
  name : m.sanitizedFilename = sanitizeFilename request.filename
  size : m.sizeBytes = request.sizeBytes
  size_pos : 0 < request.sizeBytes
  size_le : request.sizeBytes ≤ maxUploadBytes
  expected : normalizeSha256 request.sha256 = .ok m.expectedSha256
  status : m.status = .open ∨ m.status = .committed ∨ m.status = .aborted
  held : m.status = .open → (s.staging.dir uploadPart).getD [] = s.recorded ∧
    s.recorded.length = m.bytesReceived ∧ m.bytesReceived ≤ m.sizeBytes
  fresh : m.status = .open → s.staging.dir m.sanitizedFilename = none
  directory : m.status = .open → s.staging.files.isSome = true
  committed : m.status = .committed → s.staging.dir m.sanitizedFilename = some s.recorded ∧
    s.recorded.length = m.sizeBytes ∧ ∃ h, m.actualSha256 = some h

def Inv (s : ResumeRun) : Prop := ∃ m, Current id s.staging m ∧ Sound request s m

variable {sha256 id request}

section Live

variable {s : ResumeRun} {m : UploadManifest}

/-- A crash among the first `k` operations, or events behind them. -/
theorem crashAt_cases (k : ℕ) (crash : Option (ℕ × ℕ)) :
    (∃ i n, i < k ∧ crash = some (i, n)) ∨
      reaches k crash = true ∧ ∃ es, (∀ e ∈ es, Crash.Event.NoError e) ∧
      ∀ {α : Type} (c : UploadProg α) (st : Staging),
        c.run (Crash.Event.crashAt crash) st = c.run (List.replicate k .ok ++ es) st := by
  match crash with
  | none =>
    refine .inr ⟨rfl, [], by simp, fun c st => ?_⟩
    rw [List.append_nil, Prog.run_replicate_ok, Crash.Event.crashAt]
  | some (i, n) =>
    by_cases hi : i < k
    · exact .inl ⟨i, n, hi, rfl⟩
    · have hk : k ≤ i := Nat.not_lt.1 hi
      refine .inr
        ⟨by simp [reaches, hk], Crash.Event.crashAt (some (i - k, n)), fun _ => Crash.Event.noError_crashAt,
        fun c st => ?_⟩
      rw [Crash.Event.crashAt, Crash.Event.crashAt, ← List.append_assoc,
        List.replicate_append_replicate, Nat.add_sub_cancel' hk]

/-- The manifest says of other files what it says of these, if they hold the same bytes. -/
theorem Sound.of_dir (hs : Sound request s m) {st : Staging}
    (hpart : (st.dir uploadPart).getD [] = (s.staging.dir uploadPart).getD [])
    (hfinal : st.dir m.sanitizedFilename = s.staging.dir m.sanitizedFilename)
    (hdir : st.files.isSome = s.staging.files.isSome) : Sound request ⟨st, s.recorded⟩ m :=
  { hs with
    held := fun h => hpart ▸ hs.held h
    fresh := fun h => hfinal ▸ hs.fresh h
    directory := fun h => hdir ▸ hs.directory h
    committed := fun h => hfinal ▸ hs.committed h }

/-- The state after a chunk has reached both files. -/
theorem Sound.append (hs : Sound request s m)
    (hname : sanitizeFilename request.filename ≠ uploadPart)
    (ho : m.status = .open) {bytes : List UInt8}
    (hle : m.bytesReceived + bytes.length ≤ m.sizeBytes) {st : Staging}
    (hd : st.files =
      (s.staging.setFile uploadPart (some ((s.staging.dir uploadPart).getD [] ++ bytes))).files) :
    Sound request ⟨st, s.recorded ++ bytes⟩
    { m with bytesReceived := m.bytesReceived + bytes.length } := by
  obtain ⟨hpart, hrecorded, -⟩ := hs.held ho
  have hdir : st.dir = (s.staging.setFile uploadPart (some (s.recorded ++ bytes))).dir := by
    rw [Staging.dir_congr hd, hpart]
  refine { hs with
      held := fun _ => ?_, fresh := fun _ => ?_, directory := fun _ => ?_,
      committed := fun h => ?_ }
  · rw [hdir, Staging.setFile_some_dir (hs.directory ho), if_pos rfl, List.length_append, hrecorded]
    exact ⟨rfl, rfl, hle⟩
  · rw [hdir, Staging.setFile_some_dir (hs.directory ho), if_neg (hs.name ▸ hname)]
    exact hs.fresh ho
  · rw [hd, Staging.setFile_files_isSome]
    exact hs.directory ho
  · simp [ho] at h

theorem append_step (hname : sanitizeFilename request.filename ≠ uploadPart)
    (hcur : Current id s.staging m)
    (hs : Sound request s m) (offset : Nat) (uploadLength : Option Nat) (bytes : List UInt8)
    (now : ℕ → Int) (crash : Option (ℕ × ℕ))
    (hc : OutsideGap sha256 id request s (.append offset uploadLength bytes now crash)) :
    Inv id request (s.step sha256 id (.append offset uploadLength bytes now crash)) := by
  rcases appendUploadChunk_run hcur offset uploadLength bytes now with
    ⟨e, hrun⟩ | ⟨next, reply, hcheck, hne, hlarge, hrun⟩
  · simp only [step, hrun]
    exact ⟨m, hcur, hs⟩
  have hc := hc ⟨hne, hlarge, m, next, hcur.load, hcheck⟩
  obtain ⟨⟨ho, -⟩, -, -, -, hle, -, hlen, rfl⟩ := checkAppend_eq_ok.1 hcheck
  obtain ⟨hpart, hrecorded, hreceived⟩ := hs.held ho
  rcases crashAt_cases 3 crash with ⟨i, n, hi, rfl⟩ | ⟨hreach, es, hes, hcrash⟩
  · obtain rfl | rfl | rfl : i = 0 ∨ i = 1 ∨ i = 2 := by omega
    · -- at most the file was created
      have hn : n ≤ 1 := Nat.not_lt.1 hc
      have hcut :
          (appendUploadChunk id offset uploadLength bytes now).run
          (Crash.Event.crashAt (some (0, n))) s.staging = (none, if n = 0 then s.staging else
            s.staging.setFile uploadPart
              (some ((s.staging.dir uploadPart).getD [] ++ bytes.take (n - 1)))) := by
        rw [hrun, Crash.Event.crashAt_zero]
        rfl
      simp only [step, hcut]
      split
      · exact ⟨m, hcur, hs⟩
      · obtain rfl : n = 1 := by omega
        refine ⟨m, hcur.congr rfl, hs.of_dir ?_ ?_ (Staging.setFile_files_isSome _ _ _)⟩
        · rw [Staging.setFile_some_dir (hs.directory ho), if_pos rfl]
          exact List.append_nil _
        · rw [Staging.setFile_some_dir (hs.directory ho), if_neg (hs.name ▸ hname)]
    · exact absurd trivial hc
    · exact absurd trivial hc
  · have hrec : Recorded id { m with bytesReceived := m.bytesReceived + bytes.length }
        (s.staging.setFile uploadPart (some ((s.staging.dir uploadPart).getD [] ++ bytes))).files
        (.ok reply)
        ((appendUploadChunk id offset uploadLength bytes now).run (Crash.Event.crashAt crash)
          s.staging) := by
      obtain ⟨fs, hfs⟩ := Option.isSome_iff_exists.1 (hs.directory ho)
      rw [hcrash, hrun, UploadFile.append, Prog.op_bind, List.replicate_succ, List.cons_append,
        Prog.run_step_ok, hfs]
      exact Current.writeOr_staged (hcur.congr rfl) hcur.1 hes
    simp only [step, hreach, if_true]
    generalize (appendUploadChunk id offset uploadLength bytes now).run (Crash.Event.crashAt crash)
      s.staging = out at hrec
    obtain ⟨r, st⟩ := out
    obtain ⟨hr, hcur', hd⟩ := hrec
    have hsound : Inv id request ⟨st, s.recorded ++ bytes⟩ := ⟨_, hcur', hs.append hname ho hle hd⟩
    rcases hr with rfl | rfl
    · exact hsound
    · exact hsound

theorem commit_step (hcur : Current id s.staging m)
    (hs : Sound request s m) (requestSha256 : Option String) (now : ℕ → Int)
    (crash : Option (ℕ × ℕ))
    (hc : OutsideGap sha256 id request s (.commit requestSha256 now crash)) :
    Inv id request (s.step sha256 id (.commit requestSha256 now crash)) := by
  rcases commitUpload_run hcur hs.fresh requestSha256 now with
    ⟨r, hrun⟩ | ⟨actual, hcheck, hexp, hrun⟩
  · have hstep : s.step sha256 id (.commit requestSha256 now crash) = s := by
      simp only [step]
      rw [hrun]
    rw [hstep]
    exact ⟨m, hcur, hs⟩
  have hc := hc ⟨m, actual, hcur.load, hexp, hcheck⟩
  obtain ⟨⟨ho, -⟩, hfull, bytes, hpart, hlen, -⟩ := checkCommit_eq_ok.1 hcheck
  obtain ⟨hheld, hrecorded, -⟩ := hs.held ho
  obtain rfl : bytes = s.recorded := by simpa [hpart] using hheld
  have hdir : s.staging.makeDir = s.staging := Staging.makeDir_eq (hs.directory ho)
  rcases crashAt_cases 4 crash with ⟨i, n, hi, rfl⟩ | ⟨-, es, hes, hcrash⟩
  · have huncut : i ≤ 1 →
        (commitUpload sha256 id requestSha256 now).run (Crash.Event.crashAt (some (i, n)))
        s.staging = (none, s.staging) := by
      intro hi
      rw [hrun]
      obtain rfl | rfl : i = 0 ∨ i = 1 := by omega
      · rfl
      · exact congrArg (Prod.mk none) hdir
    obtain hle | rfl | rfl : i ≤ 1 ∨ i = 2 ∨ i = 3 := by omega
    · simp only [step, huncut hle]
      exact ⟨m, hcur, hs⟩
    · exact absurd trivial hc
    · exact absurd trivial hc
  · have hmove : ∀ es, (UploadFile.createDirAll >>= fun _ =>
          moveUpload { m with actualSha256 := some actual, status := .committed }).run
            (.ok :: .ok :: es)
        s.staging = (writeManifestOr { m with actualSha256 := some actual, status := .committed }
          (UploadFile.rename m.sanitizedFilename uploadPart)
          (commitResponseFromManifest
            { m with actualSha256 := some actual, status := .committed })).run es
          ((s.staging.setFile uploadPart none).setFile m.sanitizedFilename (some s.recorded)) := by
      intro es
      rw [UploadFile.createDirAll, Prog.op_bind, Prog.run_step_ok, hdir, moveUpload]
      dsimp only
      rw [UploadFile.rename, Prog.op_bind, Prog.run_step_ok, hpart]
      rfl
    have hrec : Recorded id { m with actualSha256 := some actual, status := .committed }
        ((s.staging.setFile uploadPart none).setFile m.sanitizedFilename (some s.recorded)).files
        (commitResponseFromManifest { m with actualSha256 := some actual, status := .committed })
        ((commitUpload sha256 id requestSha256 now).run (Crash.Event.crashAt crash) s.staging) := by
      rw [hcrash, hrun]
      refine (hmove (.ok :: .ok :: es)).symm ▸ ?_
      exact Current.writeOr_staged (hcur.congr rfl) hcur.1 hes
    obtain ⟨-, hcur', hfiles⟩ := hrec
    refine ⟨_, hcur', { hs with
      status := .inr (.inl rfl), held := by simp, fresh := by simp, directory := by simp, committed := fun _ => ?_ }⟩
    refine ⟨?_, hlen, actual, rfl⟩
    simp only [step]
    rw [Staging.dir_congr hfiles, Staging.setFile_some_dir, if_pos rfl]
    rw [Staging.setFile_files_isSome]
    exact hs.directory ho

theorem abort_step (hname : sanitizeFilename request.filename ≠ uploadPart)
    (hcur : Current id s.staging m)
    (hs : Sound request s m) (now : ℕ → Int) (crash : Option (ℕ × ℕ))
    (hc : OutsideGap sha256 id request s (.abort now crash)) :
    Inv id request (s.step sha256 id (.abort now crash)) := by
  rcases abortUpload_run hcur now with ⟨r, hrun⟩ | ⟨hlive, m', resp, hst', hf, hid, hrun⟩
  · simp only [step]
    rw [hrun]
    exact ⟨m, hcur, hs⟩
  have hc := hc ⟨m, hcur.load, hlive⟩
  rcases crashAt_cases 5 crash with ⟨i, n, hi, rfl⟩ | ⟨-, es, hes, hcrash⟩
  · by_cases h0 : i = 0
    · subst h0
      simp only [step]
      rw [hrun, Crash.Event.crashAt_zero]
      exact ⟨m, hcur, hs⟩
    obtain rfl | rfl | rfl | rfl : i = 1 ∨ i = 2 ∨ i = 3 ∨ i = 4 := by omega
    · -- there were no bytes to remove
      simp only [InGap, not_or, not_not] at hc
      have hcut : (abortUpload id now).run (Crash.Event.crashAt (some (1, n))) s.staging =
          (none, s.staging.setFile uploadPart none) := by
        rw [hrun]
        rfl
      simp only [step]
      rw [hcut]
      refine ⟨m, hcur.congr rfl, hs.of_dir ?_ ?_ (Staging.setFile_files_isSome _ _ _)⟩
      · rw [Staging.setFile_none_dir, if_pos rfl, hc.1]
        rfl
      · rw [Staging.setFile_none_dir, if_neg (hs.name ▸ hname)]
    · simp only [InGap, not_or, not_not] at hc
      have hcut : (abortUpload id now).run (Crash.Event.crashAt (some (2, n))) s.staging =
          (none, (s.staging.setFile uploadPart none).setFile m.sanitizedFilename none) := by
        rw [hrun]
        rfl
      simp only [step]
      rw [hcut]
      refine ⟨m, hcur.congr rfl, hs.of_dir ?_ ?_ ?_⟩
      · rw [Staging.setFile_none_dir, Staging.setFile_none_dir, if_pos rfl, ite_self, hc.1]
        rfl
      · rw [Staging.setFile_none_dir, if_pos rfl, hs.name, hc.2]
      · rw [Staging.setFile_files_isSome, Staging.setFile_files_isSome]
    · exact absurd trivial hc
    · exact absurd trivial hc
  · have hrec :
        Recorded id m'
        ((s.staging.setFile uploadPart none).setFile m.sanitizedFilename none).removeDir.files
        (.ok resp) ((abortUpload id now).run (Crash.Event.crashAt crash) s.staging) := by
      rw [hcrash, hrun]
      exact Current.write_staged (hcur.congr (Staging.removeDir_manifests _)) hid hes
    obtain ⟨-, hcur', -⟩ := hrec
    exact ⟨m', hcur', {
      name := hf.sanitizedFilename.trans hs.name
      size := hf.sizeBytes.trans hs.size
      size_pos := hs.size_pos
      size_le := hs.size_le
      expected := hf.expectedSha256 ▸ hs.expected
      status := .inr (.inr hst')
      held := fun h => by simp [hst'] at h
      fresh := fun h => by simp [hst'] at h
      directory := fun h => by simp [hst'] at h
      committed := fun h => by simp [hst'] at h }⟩

/-- What is left of an open upload, appended byte by byte. -/
theorem appendAll_ok (hname : sanitizeFilename request.filename ≠ uploadPart) {now : ℕ → Int}
    (rest : List UInt8)
    {s : ResumeRun} {m : UploadManifest} (hcur : Current id s.staging m) (hs : Sound request s m)
    (ho : m.status = .open) (hnow : ∀ i, now i ≤ m.expiresAtMs)
    (hlen : s.recorded.length + rest.length ≤ request.sizeBytes) :
    ∃ st m', appendAll id now m.bytesReceived (rest.map fun b => [b]) s.staging = some st ∧
    Current id st m' ∧
      Sound request ⟨st, s.recorded ++ rest⟩ m' ∧ m'.status = .open ∧
      m'.expiresAtMs = m.expiresAtMs := by
  induction rest generalizing s m with
  | nil => exact ⟨s.staging, m, rfl, hcur, by simpa using hs, ho, rfl⟩
  | cons b rest ih =>
    obtain ⟨hpart, hrecorded, -⟩ := hs.held ho
    have hle : m.bytesReceived + [b].length ≤ m.sizeBytes := by
      rw [List.length_cons] at hlen
      rw [List.length_singleton, hs.size, ← hrecorded]
      omega
    have hmax : m.bytesReceived + [b].length ≤ maxUploadBytes := hle.trans (hs.size ▸ hs.size_le)
    have hcheck : checkAppend m (s.staging.dir uploadPart) m.bytesReceived none [b] (now 0) =
        .ok (m.bytesReceived + [b].length) := by
      rw [checkAppend_eq_ok]
      refine ⟨⟨ho, hnow 0⟩, nofun, rfl, ?_, hle, hmax, ?_, rfl⟩
      · exact Nat.lt_of_le_of_lt hmax (by decide)
      · rw [hpart, hrecorded]
    obtain ⟨r, st, hrun⟩ :=
      Prog.run_nil (appendUploadChunk id m.bytesReceived none [b] now) s.staging
    have hout :=
      Prog.wp_reply (appendUploadChunk_wp hcur m.bytesReceived none [b] now) (by simp) hrun
    cases hout with
    | refused e why =>
      exact absurd hcheck (why (hs.directory ho) (by simp) (by simp [recommendedChunkBytes]) _)
    | written resp next st check current _ dir =>
      obtain rfl : m.bytesReceived + [b].length = next := Except.ok.inj (hcheck.symm.trans check)
      have hs' := hs.append hname ho hle dir
      obtain ⟨st', m', hall, hcur', hs'', ho', hexp⟩ :=
        ih (s := ⟨st, s.recorded ++ [b]⟩) current hs' ho hnow (by
        rw [List.length_append, List.length_singleton]
        rw [List.length_cons] at hlen
        omega)
      refine ⟨st', m', ?_, hcur', ?_, ho', hexp⟩
      · rw [List.map_cons, appendAll, hrun]
        exact hall
      · simpa using hs''

/-- A commit of an open upload that has all its bytes. -/
theorem commit_ok (hname : sanitizeFilename request.filename ≠ uploadPart) {now : ℕ → Int}
    (hcur : Current id s.staging m) (hs : Sound request s m) (ho : m.status = .open)
    (hnow : ∀ i, now i ≤ m.expiresAtMs) (hlen : s.recorded.length = request.sizeBytes)
    (hsum : ∀ e, normalizeSha256 request.sha256 = .ok (some e) → e = sha256 s.recorded) :
    ∃ resp st m', (commitUpload sha256 id none now).run [] s.staging = (some (.ok resp), st) ∧
      loadManifestForUpload st id = .ok m' ∧ m'.status = .committed ∧
      st.dir (sanitizeFilename request.filename) = some s.recorded := by
  obtain ⟨hheld, hrecorded, -⟩ := hs.held ho
  have hpart : s.staging.dir uploadPart = some s.recorded := by
    cases hp : s.staging.dir uploadPart with
    | some b => rw [← hheld, hp, Option.getD_some]
    | none =>
      rw [hp, Option.getD_none] at hheld
      rw [← hheld, List.length_nil] at hlen
      exact absurd hlen (Nat.ne_of_lt hs.size_pos)
  have hcheck : checkCommit sha256 m (s.staging.dir uploadPart) none (now 1) =
      .ok (sha256 s.recorded) := by
    rw [checkCommit_eq_ok]
    refine ⟨⟨ho, hnow 1⟩, ?_, s.recorded, hpart, ?_, none, rfl, fun e he => hsum e ?_, rfl⟩
    · rw [← hrecorded, hlen, hs.size]
    · rw [hlen, hs.size]
    · rw [hs.expected]
      exact congrArg Except.ok he
  have hexp : uploadIsExpiredAt m (now 0) = false := by simp [uploadIsExpiredAt, ho, hnow 0]
  obtain ⟨r, st, hrun⟩ := Prog.run_nil (commitUpload sha256 id none now) s.staging
  have hout :=
    Prog.wp_reply (commitUpload_wp hcur (fun _ => hs.name ▸ hname) none now) (by simp) hrun
  cases hout with
  | refused e why => exact absurd hcheck (why ho hexp _)
  | replayed resp status => simp [ho] at status
  | moved resp bytes st part check current final =>
    obtain rfl : bytes = s.recorded := by simpa [part] using hpart
    exact ⟨resp, st, _, hrun, current.load, rfl, hs.name ▸ final⟩

theorem Inv.resumable (hname : sanitizeFilename request.filename ≠ uploadPart)
    (hi : Inv id request s) : Resumable sha256 id request s := by
  obtain ⟨m, hcur, hs⟩ := hi
  have hstatus : ∀ now : ℕ → Int, (uploadStatus id now).run [] s.staging =
      (some (.ok (statusFromManifest m (now 0))), s.staging) := fun now => by
    rw [uploadStatus, run_loadManifest, hcur.load]
    rfl
  refine ⟨m, hcur.load, ?_⟩
  rcases hs.status with ho | hst | hst
  · refine .inr fun now rest hnow hlen hsum => ?_
    obtain ⟨st, m', hall, hcur', hs', ho', hexp⟩ :=
      appendAll_ok hname rest hcur hs ho hnow (by rw [← List.length_append, hlen])
    obtain ⟨resp, st', m'', hrun, hload, hst', hfinal⟩ :=
      commit_ok hname hcur' hs' ho' (fun i => hexp ▸ hnow i) hlen hsum
    exact ⟨_, rest.map fun b => [b], st, resp, st', m'', hstatus now, List.flatMap_singleton' rest,
      hall, hrun, hload, hst', hfinal⟩
  · refine .inr fun now rest hnow hlen _ => ?_
    obtain ⟨hfinal, hfull, digest, hactual⟩ := hs.committed hst
    -- nothing is left to append, and the commit is answered again
    obtain rfl : rest = [] := by
      rw [List.length_append, hfull, hs.size] at hlen
      exact List.eq_nil_of_length_eq_zero (by omega)
    have hrun : (commitUpload sha256 id none now).run [] s.staging =
        (some (.ok ⟨m.uploadId, stagedUri m.uploadId, m.filename, m.mimeType, m.sizeBytes, digest⟩),
          s.staging) := by
      have hexp : uploadIsExpiredAt m (now 0) = false := by simp [uploadIsExpiredAt, hst, hnow 0]
      rw [commitUpload, run_loadManifest, hcur.load]
      simp only [commitLoadedUpload, hexp, hst, commitResponseFromManifest, hactual]
      rfl
    exact ⟨_, [], s.staging, _, s.staging, m, hstatus now, rfl, rfl, hrun, hcur.load, hst, by
      rw [List.append_nil, ← hs.name, hfinal]⟩
  · exact .inl hst

end Live

theorem Inv.step {s : ResumeRun} (hname : sanitizeFilename request.filename ≠ uploadPart)
    (hi : Inv id request s)
    (c : CrashCall) (hc : OutsideGap sha256 id request s c) :
    Inv id request (s.step sha256 id c) := by
  obtain ⟨m, hcur, hs⟩ := hi
  cases c with
  | append offset uploadLength bytes now crash =>
    exact append_step hname hcur hs offset uploadLength bytes now crash hc
  | commit requestSha256 now crash => exact commit_step hcur hs requestSha256 now crash hc
  | abort now crash => exact abort_step hname hcur hs now crash hc

theorem inv_prepared (id : String) (request : UploadPrepareRequest)
    (allowedExtensions : List String) (defaultStoreOriginalFile : Bool) (now : ℕ → Int)
    (hvalid : validatePrepareRequest request allowedExtensions defaultStoreOriginalFile = .ok ()) :
    Inv id request (prepared id request allowedExtensions defaultStoreOriginalFile now) := by
  obtain ⟨r, st, hrun⟩ := Prog.run_nil
    (prepareUpload id request allowedExtensions defaultStoreOriginalFile now) .empty
  have hprep : prepared id request allowedExtensions defaultStoreOriginalFile now = ⟨st, []⟩ := by
    rw [prepared, UploadRun.prepared, hrun]
  rw [hprep]
  rcases Prog.wp_reply (prepareUpload_wp id request allowedExtensions defaultStoreOriginalFile now)
    (by simp) hrun with ⟨-, hbad⟩ | ⟨e, -, he, hcur, hd⟩
  · exact absurd hvalid hbad
  · obtain ⟨hpos, hle, -⟩ := validatePrepareRequest_eq_ok hvalid
    exact ⟨_, hcur, {
      name := rfl
      size := rfl
      size_pos := hpos
      size_le := hle
      expected := he
      status := .inl rfl
      held := fun _ => ⟨by rw [Staging.dir, hd]; rfl, rfl, Nat.zero_le _⟩
      fresh := fun _ => by rw [Staging.dir, hd]; rfl
      directory := fun _ => by rw [hd]; rfl
      committed := by simp [preparedManifest] }⟩

/-- Whatever sequence of appends, commits and aborts, each cut by a crash or not: if the final file
has a name of its own and no crash falls into a gap, the upload can be resumed in every state. -/
theorem resumable_always (sha256 : List UInt8 → String) (id : String)
    (request : UploadPrepareRequest)
    (allowedExtensions : List String) (defaultStoreOriginalFile : Bool) (now : ℕ → Int)
    (calls : List CrashCall)
    (hvalid : validatePrepareRequest request allowedExtensions defaultStoreOriginalFile = .ok ())
    (hname : sanitizeFilename request.filename ≠ uploadPart)
    (hg : Run.Guarded (step sha256 id) (OutsideGap sha256 id request)
      (prepared id request allowedExtensions defaultStoreOriginalFile now) calls) :
    Run.Always (step sha256 id) (Resumable sha256 id request)
      (prepared id request allowedExtensions defaultStoreOriginalFile now) calls :=
  hg.always (Inv id request) (fun _ c hi hc => hi.step hname c hc) (fun _ hi => hi.resumable hname)
    (inv_prepared id request allowedExtensions defaultStoreOriginalFile now hvalid)

/-! ### The gap -/

/-- Where `upload.part` and the manifest are at odds, no append is ever accepted. -/
theorem appendAll_stuck {s : Staging} {m : UploadManifest} (hcur : Current id s m)
    (hne : ((s.dir uploadPart).getD []).length ≠ m.bytesReceived) (now : ℕ → Int) (offset : Nat)
    {chunks : List (List UInt8)} (hchunks : chunks ≠ []) :
    appendAll id now offset chunks s = none := by
  obtain ⟨c, cs, rfl⟩ := List.exists_cons_of_ne_nil hchunks
  obtain ⟨r, st, hrun⟩ := Prog.run_nil (appendUploadChunk id offset none c now) s
  have hout := Prog.wp_reply (appendUploadChunk_wp hcur offset none c now) (by simp) hrun
  rw [appendAll, hrun]
  cases hout with
  | refused e why => rfl
  | written resp next st check current _ dir =>
    obtain ⟨-, -, -, -, -, -, hlen, -⟩ := checkAppend_eq_ok.1 check
    exact absurd hlen hne

end ResumeRun

/-! ### A crash in the gap -/

namespace ResumeRun

open Hi

/-- The first byte reaches `upload.part`, and the process dies before the manifest says so. -/
def cutAppend : ResumeRun :=
  (prepared uploadId (request "notes.md" none) ["md"] true (clock 1000)).step sha256 uploadId
    (.append 0 none [0x68] (clock 2000) (some (1, 0)))

theorem appendCut_not_resumable :
    ¬ Run.Always (step sha256 uploadId) (Resumable sha256 uploadId (request "notes.md" none))
      (prepared uploadId (request "notes.md" none) ["md"] true (clock 1000))
      [.append 0 none [0x68] (clock 2000) (some (1, 0))] := by
  rintro ⟨-, hres⟩
  have hres : Resumable sha256 uploadId (request "notes.md" none) cutAppend := hres
  have hload : loadManifestForUpload cutAppend.staging uploadId =
      .ok (preparedManifest uploadId (request "notes.md" none) none 1000) := by decide +kernel
  have hprimary : cutAppend.staging.manifests .primary =
      some (.json (preparedManifest uploadId (request "notes.md" none) none 1000)) := by
        decide +kernel
  have htmp : cutAppend.staging.manifests .tmp = none := by decide +kernel
  have hpart : cutAppend.staging.dir uploadPart = some [0x68] := by decide +kernel
  have hcur :
      Current uploadId cutAppend.staging
      (preparedManifest uploadId (request "notes.md" none) none 1000) :=
    ⟨rfl, none, some _, ⟨by rw [htmp]; rfl, .inl ⟨_, rfl, hprimary⟩⟩, rfl⟩
  obtain ⟨m, hm, hcase⟩ := hres
  obtain rfl := Except.ok.inj (hload.symm.trans hm)
  rcases hcase with hst | hcomplete
  · cases hst
  · have hnow :
        (2000 : Int) ≤
        (preparedManifest uploadId (request "notes.md" none) none 1000).expiresAtMs := by
      decide +kernel
    obtain ⟨resp, chunks, s₁, -, -, -, -, hchunks, hall, -⟩ :=
      hcomplete (clock 2000) bytes (fun _ => hnow) rfl nofun
    have hne : chunks ≠ [] := by
      rintro rfl
      cases hchunks
    rw [appendAll_stuck hcur (by rw [hpart]; decide) _ _ hne] at hall
    cases hall

/-- Crashes past the gap: an append is cut once its `tmp` is whole, a commit before its first
write. -/
theorem resumable_always_pastGap :
    Run.Always (step sha256 uploadId) (Resumable sha256 uploadId (request "notes.md" (some digest)))
      (prepared uploadId (request "notes.md" (some digest)) ["md"] true (clock 1000))
      [.append 0 none [0x68] (clock 2000) (some (3, 0)), .append 1 none [0x69] (clock 2000) none,
        .commit none (clock 3000) (some (0, 0))] :=
  resumable_always sha256 uploadId (request "notes.md" (some digest)) ["md"] true (clock 1000) _
    (by decide +kernel) (by decide +kernel) ⟨fun _ h => h, fun _ h => h, fun _ h => h, trivial⟩

end ResumeRun

end Solo
