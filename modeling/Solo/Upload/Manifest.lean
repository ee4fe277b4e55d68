import Solo.Lib.Crash
import Solo.Store.Writer

/-!
# Upload manifests on disk (`document_upload.rs`)

The manifest of an upload is the JSON file `{id}.json`. `write_manifest` writes `{id}.json.tmp`,
rotates the old manifest to `{id}.json.bak` and renames the new one into place; the loader takes the
first of tmp, primary and backup that parses. The staged bytes live beside them in the directory
`{id}/`.

Seen from outside, the three files are a stable manifest and perhaps a newer one that is staged
(`Holds`); `writeManifest_wp` says what one write can make of these two, wherever it is cut.
-/

namespace Solo

open Crash

inductive UploadStatus
  | open | busy | committed | ingested | expired | aborted
  deriving DecidableEq, Repr

/-- The fields of the ingest receipt that the upload protocol reads or sets. -/
structure StagedIngestResponse where
  stagedUri : String
  documentId : Option String
  extractionStatus : String
  deletedStagedFile : Bool
  retainedSourceFile : Bool
  idempotentReplay : Bool
  ingestCompletedAtMs : Int
  deriving DecidableEq, Repr

structure UploadManifest where
  uploadId : String
  filename : String
  sanitizedFilename : String
  mimeType : String
  sizeBytes : Nat
  expectedSha256 : Option String
  actualSha256 : Option String
  bytesReceived : Nat
  status : UploadStatus
  createdAtMs : Int
  expiresAtMs : Int
  ingestResult : Option StagedIngestResponse
  deriving DecidableEq, Repr

/-- What a manifest file holds: the JSON of a manifest, or a proper prefix of it. -/
inductive ManifestText
  | json (m : UploadManifest)
  | torn (m : UploadManifest)
  deriving DecidableEq, Repr

/-- `serde_json::from_str`. -/
def ManifestText.parse : ManifestText → Option UploadManifest
  | .json m => some m
  | .torn _ => none

inductive ManifestPath
  | tmp | primary | bak
  deriving DecidableEq, Repr

/-- The files of one upload: its manifests, and those in the directory of its staged bytes, where
that directory exists. -/
structure Staging where
  manifests : ManifestPath → Option ManifestText
  files : Option (List (String × List UInt8))

namespace Staging

def empty : Staging := ⟨fun _ => none, none⟩

/-- What the file of this name in the upload directory holds. -/
def dir (s : Staging) (name : String) : Option (List UInt8) := s.files.bind (·.lookup name)

def setManifest (s : Staging) (p : ManifestPath) (t : Option ManifestText) : Staging :=
  { s with manifests := fun q => if q = p then t else s.manifests q }

/-- A file of the upload directory is written or removed; without the directory there is none. -/
def setFile (s : Staging) (name : String) (b : Option (List UInt8)) : Staging :=
  { s with files := s.files.map fun fs => b.toList.map (name, ·) ++ fs.filter fun f => f.1 ≠ name }

@[simp] theorem setManifest_manifests (s : Staging) (p q : ManifestPath) (t : Option ManifestText) :
    (s.setManifest p t).manifests q = if q = p then t else s.manifests q := rfl

@[simp] theorem setManifest_files (s : Staging) (p : ManifestPath) (t : Option ManifestText) :
    (s.setManifest p t).files = s.files := rfl

@[simp] theorem setManifest_dir (s : Staging) (p : ManifestPath) (t : Option ManifestText) :
    (s.setManifest p t).dir = s.dir := rfl

@[simp] theorem setFile_manifests (s : Staging) (n : String) (b : Option (List UInt8)) :
    (s.setFile n b).manifests = s.manifests := rfl

@[simp] theorem setFile_files_isSome (s : Staging) (n : String) (b : Option (List UInt8)) :
    (s.setFile n b).files.isSome = s.files.isSome := Option.isSome_map

theorem dir_congr {s s' : Staging} (h : s'.files = s.files) : s'.dir = s.dir := by
  funext n
  rw [dir, dir, h]

theorem lookup_filter_ne (fs : List (String × List UInt8)) (n n' : String) :
    (fs.filter fun f => f.1 ≠ n).lookup n' = if n' = n then none else fs.lookup n' := by
  induction fs with
  | nil => simp
  | cons f fs ih =>
    obtain ⟨m, b⟩ := f
    by_cases hm : m = n
    · rw [List.filter_cons_of_neg (by simp [hm]), ih]
      by_cases hn : n' = n
      · simp [hn]
      · have hne : (n' == m) = false := by simp [hm, hn]
        simp [hn, List.lookup_cons, hne]
    · rw [List.filter_cons_of_pos (by simp [hm]), List.lookup_cons, List.lookup_cons, ih]
      by_cases hn : n' = n
      · have hne : (n' == m) = false := by simp [hn, Ne.symm hm]
        simp [hn, hn ▸ hne]
      · simp [hn]

@[simp] theorem setFile_none_dir (s : Staging) (n n' : String) :
    (s.setFile n none).dir n' = if n' = n then none else s.dir n' := by
  unfold dir setFile
  cases s.files with
  | none => simp
  | some fs => exact lookup_filter_ne fs n n'

/-- A write, where the directory exists. -/
theorem setFile_some_dir {s : Staging} (h : s.files.isSome = true) (n n' : String)
    (b : List UInt8) : (s.setFile n (some b)).dir n' = if n' = n then some b else s.dir n' := by
  obtain ⟨fs, hfs⟩ := Option.isSome_iff_exists.1 h
  simp only [dir, setFile, hfs, Option.map_some, Option.toList_some, List.map_singleton,
    List.singleton_append, Option.bind_some, List.lookup_cons]
  by_cases hn : n' = n
  · simp [hn]
  · have hne : (n' == n) = false := by simp [hn]
    rw [hne, lookup_filter_ne]
    simp [hn]

theorem files_isSome_of_dir {s : Staging} {n : String} {b : List UInt8} (h : s.dir n = some b) :
    s.files.isSome = true := by
  obtain ⟨fs, hfs, -⟩ := Option.bind_eq_some_iff.1 h
  rw [hfs]
  rfl

/-- The upload directory is there. -/
def makeDir (s : Staging) : Staging := { s with files := some (s.files.getD []) }

/-- The upload directory is gone if it was empty. -/
def removeDir (s : Staging) : Staging := if s.files = some [] then { s with files := none } else s

@[simp] theorem makeDir_manifests (s : Staging) : s.makeDir.manifests = s.manifests := rfl

@[simp] theorem makeDir_dir (s : Staging) : s.makeDir.dir = s.dir := by
  funext n
  unfold dir makeDir
  cases s.files <;> rfl

theorem makeDir_eq {s : Staging} (h : s.files.isSome = true) : s.makeDir = s := by
  obtain ⟨manifests, files⟩ := s
  obtain ⟨fs, rfl⟩ := Option.isSome_iff_exists.1 h
  rfl

@[simp] theorem removeDir_manifests (s : Staging) : s.removeDir.manifests = s.manifests := by
  unfold removeDir
  split <;> rfl

@[simp] theorem removeDir_dir (s : Staging) : s.removeDir.dir = s.dir := by
  unfold removeDir
  split
  · next h =>
    funext n
    rw [dir, dir, h]
    rfl
  · rfl

end Staging

abbrev UploadProg (α : Type) := Prog Staging Error α

/-! ### File operations on manifests -/

namespace ManifestPath

/-- `remove_if_exists`. -/
def removeIfExists (p : ManifestPath) : UploadProg Unit :=
  Prog.op (fun s => some (s.setManifest p none)) (fun _ s => s) (.storage "remove")

/-- `std::fs::write`. Cut before its first byte it leaves the file as it was. -/
def write (p : ManifestPath) (m : UploadManifest) : UploadProg Unit :=
  Prog.op (fun s => some (s.setManifest p (some (.json m))))
    (fun n s => if n = 0 then s else s.setManifest p (some (.torn m)))
    (.storage "write upload manifest")

/-- `std::fs::rename`: refused when the source is missing. -/
def rename (p q : ManifestPath) (context : String) : UploadProg Unit :=
  Prog.op (fun s => (s.manifests p).map fun t => (s.setManifest q (some t)).setManifest p none)
    (fun _ s => s) (.storage context)

/-- `Path::exists`. -/
def «exists» (p : ManifestPath) : UploadProg Bool := Prog.get fun s => (s.manifests p).isSome

end ManifestPath

open ManifestPath in
/-- The first half of `write_manifest`: the new manifest reaches the disk. -/
def stageManifest (m : UploadManifest) : UploadProg Unit := do
  removeIfExists .tmp
  write .tmp m

open ManifestPath in
/-- The second half of `write_manifest`: the new manifest takes the place of the old one. -/
def publishManifest : UploadProg Unit := do
  let hadExisting ← «exists» .primary
  if hadExisting then
    removeIfExists .bak
    match ← (rename .primary .bak "replace upload manifest backup").attempt with
    | .ok _ => pure ()
    | .error e =>
      let _ ← (removeIfExists .tmp).attempt
      Prog.throw e
  match ← (rename .tmp .primary "replace upload manifest").attempt with
  | .ok _ =>
    if hadExisting then
      let _ ← (removeIfExists .bak).attempt
  | .error e =>
    if hadExisting && !(← «exists» .primary) then
      let _ ← (rename .bak .primary "restore upload manifest backup").attempt
    let _ ← (removeIfExists .tmp).attempt
    Prog.throw e

/-- `write_manifest`. -/
def writeManifest (m : UploadManifest) : UploadProg Unit := do
  stageManifest m
  publishManifest

/-- `if let Err(e) = write_manifest(..) { roll back; return Err(e) }`, then the reply. -/
def writeManifestOr {α : Type} (m : UploadManifest) (rollback : UploadProg Unit)
    (reply : Except Error α) : UploadProg α := do
  match ← (writeManifest m).attempt with
  | .error e =>
    let _ ← rollback.attempt
    Prog.throw e
  | .ok _ => Prog.ofExcept reply

/-! ### The loader -/

/-- `manifest_recovery_paths`. -/
def manifestRecoveryPaths : List ManifestPath := [.tmp, .primary, .bak]

/-- The loop of `load_manifest_for_upload` over the candidates that are left. -/
def loadCandidates (s : Staging) (id : String) : List ManifestPath → Bool →
    Except Error UploadManifest
  | [], foundCandidate =>
    if foundCandidate then .error (.storage s!"no valid upload manifest found for {id}")
    else .error (.notFound s!"upload {id} not found")
  | p :: ps, foundCandidate =>
    match s.manifests p with
    | none => loadCandidates s id ps foundCandidate
    | some t =>
      match t.parse with
      | none => loadCandidates s id ps true
      | some m => if m.uploadId ≠ id then .error (.storage "upload manifest id mismatch") else .ok m

/-- `load_manifest_for_upload`. -/
def loadManifestForUpload (s : Staging) (id : String) : Except Error UploadManifest :=
  loadCandidates s id manifestRecoveryPaths false

/-! ### What the three files stand for -/

/-- The manifest `tmp` holds, if it is whole, and the one the primary holds, or the backup where
there is no primary. -/
structure Holds (s : Staging) (staged stable : Option UploadManifest) : Prop where
  staged : (s.manifests .tmp).bind ManifestText.parse = staged
  stable : (∃ m, stable = some m ∧ s.manifests .primary = some (.json m)) ∨
    s.manifests .primary = none ∧ s.manifests .bak = stable.map .json

namespace Holds

variable {s s' : Staging} {staged stable : Option UploadManifest} {m : UploadManifest}

theorem tmp (h : Holds s (some m) stable) : s.manifests .tmp = some (.json m) := by
  obtain ⟨t, ht, hp⟩ := Option.bind_eq_some_iff.1 h.staged
  cases t with
  | torn m' => simp [ManifestText.parse] at hp
  | json m' =>
    simp only [ManifestText.parse, Option.some.injEq] at hp
    rw [ht, hp]

theorem congr (h : Holds s staged stable) (hm : s'.manifests = s.manifests) :
    Holds s' staged stable :=
  ⟨hm ▸ h.staged, hm ▸ h.stable⟩

/-- The loader answers with the staged manifest, else with the stable one. -/
theorem load {id : String} (h : Holds s staged stable) (hm : (staged <|> stable) = some m)
    (hid : m.uploadId = id) : loadManifestForUpload s id = .ok m := by
  have hstable : stable = some m → ∀ found, loadCandidates s id [.primary, .bak] found = .ok m := by
    rintro rfl found
    rcases h.stable with ⟨m', hm', hp⟩ | ⟨hp, hb⟩
    · obtain rfl := Option.some.inj hm'
      simp [loadCandidates, hp, ManifestText.parse, hid]
    · simp [loadCandidates, hp, hb, ManifestText.parse, hid]
  cases staged with
  | some m' =>
    obtain rfl : m' = m := by simpa using hm
    simp [loadManifestForUpload, manifestRecoveryPaths, loadCandidates, h.tmp, ManifestText.parse,
      hid]
  | none =>
    have hm : stable = some m := by simpa using hm
    cases ht : s.manifests .tmp with
    | none =>
      rw [loadManifestForUpload, manifestRecoveryPaths, loadCandidates, ht]
      exact hstable hm _
    | some t =>
      have hp : t.parse = none := by simpa [ht] using h.staged
      rw [loadManifestForUpload, manifestRecoveryPaths, loadCandidates, ht]
      simp only [hp]
      exact hstable hm _

end Holds

/-- The files once the first half of `write_manifest` is done. -/
def Staging.staged (s : Staging) (m : UploadManifest) : Staging :=
  (s.setManifest .tmp none).setManifest .tmp (some (.json m))

@[simp] theorem Staging.staged_files (s : Staging) (m : UploadManifest) :
    (s.staged m).files = s.files := rfl

theorem Holds.of_staged {s : Staging} {staged stable : Option UploadManifest}
    (h : Holds s staged stable) (m : UploadManifest) : Holds (s.staged m) (some m) stable :=
  ⟨by simp [Staging.staged, ManifestText.parse], by simpa [Staging.staged] using h.stable⟩

/-- What a write leaves of the manifests that is cut while it writes `tmp`. -/
def Staging.torn (s : Staging) (m : UploadManifest) (n : Nat) : Staging :=
  if n = 0 then s.setManifest .tmp none else (s.setManifest .tmp none).setManifest .tmp
    (some (.torn m))

@[simp] theorem Staging.torn_files (s : Staging) (m : UploadManifest) (n : Nat) :
    (s.torn m n).files = s.files := by
  unfold torn
  split <;> rfl

theorem Holds.of_torn {s : Staging} {staged stable : Option UploadManifest}
    (h : Holds s staged stable)
    (m : UploadManifest) (n : Nat) : Holds (s.torn m n) none stable := by
  unfold Staging.torn
  split
  · exact ⟨by simp, by simpa using h.stable⟩
  · exact ⟨by simp [ManifestText.parse], by simpa using h.stable⟩

theorem writeManifest_run_untouched (s : Staging) (m : UploadManifest) (n : Nat)
    (es : List Crash.Event) : (writeManifest m).run (.cut n :: es) s = (none, s) := rfl

theorem writeManifest_run_torn (s : Staging) (m : UploadManifest) (n : Nat)
    (es : List Crash.Event) :
    (writeManifest m).run (.ok :: .cut n :: es) s = (none, s.torn m n) := rfl

theorem stageManifest_wp {s : Staging} {staged stable : Option UploadManifest} (m : UploadManifest)
    (h : Holds s staged stable) :
    (stageManifest m).wp Crash.Event.NoError
      (fun r s' => r = .ok () ∧ Holds s' (some m) stable ∧ s'.files = s.files)
      (fun s' => (s' = s ∨ Holds s' none stable) ∧ s'.files = s.files) s := by
  have hstaged : Holds (s.staged m) (some m) stable := h.of_staged m
  have htorn : ∀ n, Holds (s.torn m n) none stable := h.of_torn m
  simp [stageManifest, Prog.wp_bind, ManifestPath.removeIfExists, ManifestPath.write, Prog.wp_op,
    Crash.Event.NoError]
  exact ⟨hstaged, fun n => ⟨.inr (htorn n), s.torn_files m n⟩⟩

/-- A crash that lets the first two operations pass falls into the second half. -/
theorem writeManifest_run_staged (s : Staging) (m : UploadManifest) (es : List Crash.Event) :
    (writeManifest m).run (.ok :: .ok :: es) s = publishManifest.run es (s.staged m) := rfl

theorem publishManifest_wp {s : Staging} {stable : Option UploadManifest} {m : UploadManifest}
    (h : Holds s (some m) stable) :
    publishManifest.wp Crash.Event.NoError
      (fun r s' => r = .ok () ∧ Holds s' none (some m) ∧ s'.files = s.files)
      (fun s' => (Holds s' (some m) stable ∨ Holds s' none (some m)) ∧ s'.files = s.files) s := by
  have ht := h.tmp
  rcases h.stable with ⟨m₀, rfl, hp⟩ | ⟨hp, hb⟩
  · simp [publishManifest, Prog.wp_bind, Prog.wp_attempt, ManifestPath.removeIfExists,
      ManifestPath.exists, ManifestPath.rename, Prog.wp_op, Crash.Event.NoError, hp, ht]
    -- from the last crash point back to the first
    refine ⟨⟨⟨⟨?_, .inr ?_⟩, .inl ?_⟩, .inl ?_⟩, .inl h⟩
    · exact ⟨by simp, .inl ⟨m, rfl, by simp⟩⟩
    · exact ⟨by simp, .inl ⟨m, rfl, by simp⟩⟩
    · exact ⟨by simp [ht, ManifestText.parse], .inr ⟨by simp, by simp⟩⟩
    · exact ⟨by simp [ht, ManifestText.parse], .inl ⟨m₀, rfl, by simp [hp]⟩⟩
  · simp [publishManifest, Prog.wp_bind, Prog.wp_attempt, ManifestPath.exists, ManifestPath.rename,
      Prog.wp_op, Crash.Event.NoError, hp, ht]
    exact ⟨⟨by simp, .inl ⟨m, rfl, by simp⟩⟩, .inl h⟩

/-- One write seen through `Holds`: it ends with the new manifest stable, and a crash leaves the old
state, the old stable manifest alone, or the new manifest staged or stable. -/
theorem writeManifest_wp {s : Staging} {staged stable : Option UploadManifest} (m : UploadManifest)
    (h : Holds s staged stable) :
    (writeManifest m).wp Crash.Event.NoError
      (fun r s' => r = .ok () ∧ Holds s' none (some m) ∧ s'.files = s.files)
      (fun s' =>
        (s' = s ∨ Holds s' none stable ∨ Holds s' (some m) stable ∨ Holds s' none (some m)) ∧
        s'.files = s.files) s := by
  rw [writeManifest, Prog.wp_bind]
  refine Prog.wp_mono ?_ ?_ (stageManifest_wp m h)
  · rintro r s₁ ⟨rfl, h₁, hd₁⟩
    refine Prog.wp_mono ?_ ?_ (publishManifest_wp h₁)
    · rintro r s' ⟨hr, h', hd⟩
      exact ⟨hr, h', hd.trans hd₁⟩
    · rintro s' ⟨h', hd⟩
      exact ⟨.inr (.inr h'), hd.trans hd₁⟩
  · rintro s' ⟨rfl | h', hd⟩
    · exact ⟨.inl rfl, hd⟩
    · exact ⟨.inr (.inl h'), hd⟩

end Solo
