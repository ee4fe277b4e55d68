import Solo.Lib.Run

/-!
# Snapshot save and load (`snapshot.rs`)

A snapshot is a pair of files, `{basename}.hnsw.data` and `{basename}.hnsw.graph`, kept under three
basenames: the live pair, the previous pair `_bak` and the pair being written `_tmp`. A directory is
modelled by the dump each file holds its half of; `save` is the list of its file operations, so that
a crash may fall between any two of them (`Saver`).

`save_crashSafe_iff`: after one completed save, the live pair or the `_bak` pair stays readable in
every reachable state exactly when no later save starts to replace `_bak` while the live pair is
mixed. The module's own crash analysis covers one crash between the two renames; the next save then
copies the mixed pair over the only consistent one.
-/

namespace Solo

/-- The basenames of the snapshot pairs: `hnsw_episodes`, `hnsw_episodes_bak`,
`hnsw_episodes_tmp`. -/
inductive Basename
  | live | bak | tmp
  deriving DecidableEq, Repr

inductive Suffix
  | data | graph
  deriving DecidableEq, Repr

/-- The dump each snapshot file of the directory is a half of; `none` where there is no file. -/
structure Dir (δ : Type*) where
  file : Basename → Suffix → Option δ

/-- What becomes of a load. -/
inductive LoadOutcome (δ : Type*)
  | index (d : δ)
  | error
  | panic

/-- `HnswIo::load_hnsw` on a data file and a graph file. Of the library we rely on the two halves of
one dump loading as it; on halves of two dumps it may load something, fail, or panic. -/
structure HnswIo (δ : Type*) where
  loadHnsw : δ → δ → LoadOutcome δ
  whole : ∀ d, loadHnsw d d = .index d

/-- A loader that fails on halves of two dumps. -/
def HnswIo.strict {δ : Type*} [DecidableEq δ] : HnswIo δ where
  loadHnsw d g := if d = g then .index d else .error
  whole _ := if_pos rfl

namespace Dir

variable {δ : Type*}

def empty : Dir δ := ⟨fun _ _ => none⟩

def set (dir : Dir δ) (b : Basename) (s : Suffix) (file : Option δ) : Dir δ :=
  ⟨fun b' s' => if b' = b ∧ s' = s then file else dir.file b' s'⟩

/-- `pair_exists`. -/
def pairExists (dir : Dir δ) (b : Basename) : Prop :=
  (dir.file b .data).isSome ∧ (dir.file b .graph).isSome

instance (dir : Dir δ) (b : Basename) : Decidable (dir.pairExists b) :=
  inferInstanceAs (Decidable (_ ∧ _))

/-- Both files are there and halves of one dump. -/
def Consistent (dir : Dir δ) (b : Basename) : Prop :=
  (dir.file b .data).isSome ∧ dir.file b .data = dir.file b .graph

instance [DecidableEq δ] (dir : Dir δ) (b : Basename) : Decidable (dir.Consistent b) :=
  inferInstanceAs (Decidable (_ ∧ _))

theorem Consistent.pairExists {dir : Dir δ} {b : Basename} (h : dir.Consistent b) :
    dir.pairExists b :=
  ⟨h.1, h.2 ▸ h.1⟩

@[simp] theorem set_same (dir : Dir δ) (b : Basename) (s : Suffix) (file : Option δ) :
    (dir.set b s file).file b s = file := by simp [set]

theorem set_basename_ne (dir : Dir δ) {b b' : Basename} (s s' : Suffix) (file : Option δ)
    (h : b' ≠ b) : (dir.set b s file).file b' s' = dir.file b' s' := by simp [set, h]

theorem set_suffix_ne (dir : Dir δ) (b b' : Basename) {s s' : Suffix} (file : Option δ)
    (h : s' ≠ s) : (dir.set b s file).file b' s' = dir.file b' s' := by simp [set, h]

theorem pairExists_set (dir : Dir δ) {b b' : Basename} (s : Suffix) (file : Option δ) (h : b' ≠ b) :
    (dir.set b s file).pairExists b' ↔ dir.pairExists b' := by
  simp [pairExists, set_basename_ne _ _ _ _ h]

theorem consistent_set (dir : Dir δ) {b b' : Basename} (s : Suffix) (file : Option δ) (h : b' ≠ b) :
    (dir.set b s file).Consistent b' ↔ dir.Consistent b' := by
  simp [Consistent, set_basename_ne _ _ _ _ h]

/-- The loader on one pair; an error where a file is missing. -/
def loadBasename (io : HnswIo δ) (dir : Dir δ) (b : Basename) : LoadOutcome δ :=
  match dir.file b .data, dir.file b .graph with
  | some d, some g => io.loadHnsw d g
  | _, _ => .error

/-- `load`. -/
def load (io : HnswIo δ) (dir : Dir δ) : LoadOutcome δ := dir.loadBasename io .live

/-- `load_bak`. -/
def loadBak (io : HnswIo δ) (dir : Dir δ) : LoadOutcome δ := dir.loadBasename io .bak

/-- Both halves of one dump load as that dump. -/
theorem loadBasename_whole (io : HnswIo δ) {dir : Dir δ} {b : Basename} {d : δ}
    (hdata : dir.file b .data = some d) (hgraph : dir.file b .graph = some d) :
    dir.loadBasename io b = .index d := by
  simp only [loadBasename, hdata, hgraph, io.whole]

theorem loadBasename_missing (io : HnswIo δ) {dir : Dir δ} {b : Basename}
    (h : dir.file b .data = none) : dir.loadBasename io b = .error := by
  simp only [loadBasename, h]

end Dir

/-- One file operation of a save. -/
inductive FileOp (δ : Type*)
  | remove (b : Basename) (s : Suffix)
  | dump (s : Suffix) (d : δ)
  | copy (src dst : Basename) (s : Suffix)
  | rename (src dst : Basename) (s : Suffix)

/-- The directory after the operation; `none` where the file it reads is not found. Removing a
missing file is not an error (`remove_pair`). -/
def FileOp.apply {δ : Type*} : FileOp δ → Dir δ → Option (Dir δ)
  | .remove b s, dir => some (dir.set b s none)
  | .dump s d, dir => some (dir.set .tmp s (some d))
  | .copy src dst s, dir => (dir.file src s).map fun d => dir.set dst s (some d)
  | .rename src dst s, dir => (dir.file src s).map fun d => (dir.set src s none).set dst s (some d)

/-- A step of `save`: a file operation, or the test that guards the backup. -/
inductive SaveStep (δ : Type*)
  | file (op : FileOp δ)
  | backup

namespace SaveStep

variable {δ : Type*}

def removePair (b : Basename) : List (SaveStep δ) :=
  [.file (.remove b .data), .file (.remove b .graph)]

def copyPair (src dst : Basename) : List (SaveStep δ) :=
  [.file (.copy src dst .data), .file (.copy src dst .graph)]

def renamePair (src dst : Basename) : List (SaveStep δ) :=
  [.file (.rename src dst .data), .file (.rename src dst .graph)]

/-- `Hnsw::file_dump(dir, TMP_BASENAME)`. -/
def fileDump (d : δ) : List (SaveStep δ) := [.file (.dump .data d), .file (.dump .graph d)]

/-- What is left to do after the step, and the directory; `none` on an I/O error. -/
def exec : SaveStep δ → List (SaveStep δ) → Dir δ → Option (List (SaveStep δ) × Dir δ)
  | .file op, rest, dir => (op.apply dir).map fun dir' => (rest, dir')
  | .backup, rest, dir =>
    if dir.pairExists .live then some (removePair .bak ++ copyPair .live .bak ++ rest, dir)
    else some (rest, dir)

end SaveStep

open SaveStep

/-- The steps of `save` on the dump `d` of a non-empty index. -/
def savePlan {δ : Type*} (d : δ) : List (SaveStep δ) :=
  removePair .tmp ++ fileDump d ++ [.backup] ++ renamePair .tmp .live

/-- A data directory, what the save in flight has still to do, and whether a save has completed. -/
structure Saver (δ : Type*) where
  dir : Dir δ
  todo : List (SaveStep δ)
  saved : Bool

/-- `call rawLen d`: `save` is called on an index of `rawLen` graph points that dumps as `d`; a save
still in flight was cut off there by a crash. `op`: the save in flight does its next step. -/
inductive SaveEvent (δ : Type*)
  | call (rawLen : Nat) (d : δ)
  | op

namespace Saver

variable {δ : Type*}

/-- Some process opens the directory as it stands. -/
def start (dir : Dir δ) : Saver δ := ⟨dir, [], false⟩

def step (s : Saver δ) : SaveEvent δ → Saver δ
  | .call rawLen d => { s with todo := if rawLen = 0 then [] else savePlan d }
  | .op =>
    match s.todo with
    | [] => s
    | st :: rest =>
      match st.exec rest s.dir with
      | none => { s with todo := [] }
      | some (todo, dir) => ⟨dir, todo, s.saved || todo.isEmpty⟩

/-- After a completed save the live pair or the `_bak` pair is readable. -/
def CrashSafe (s : Saver δ) : Prop := s.saved → s.dir.Consistent .live ∨ s.dir.Consistent .bak

instance [DecidableEq δ] (s : Saver δ) : Decidable s.CrashSafe :=
  inferInstanceAs (Decidable (_ → _))

/-- The next step removes the first file of the `_bak` pair. -/
def DropsBak (s : Saver δ) : Prop := s.todo.head? matches some (.file (.remove .bak .data))

/-- The step does not start to replace `_bak` while the live pair is mixed. -/
def BackupGuard (s : Saver δ) (e : SaveEvent δ) : Prop :=
  e matches .op → s.saved → s.DropsBak → s.dir.Consistent .live

/-- Where a save stands, with what the files are known to hold there. `good` is `CrashSafe`; from
the removal of `_bak` on, the live pair has to carry it alone, until the copies are in place. -/
inductive Phase (dir : Dir δ) (saved : Bool) : List (SaveStep δ) → Prop
  | idle (live : saved → dir.pairExists .live)
      (good : saved → dir.Consistent .live ∨ dir.Consistent .bak) : Phase dir saved []
  | stage (d : δ) (n : Nat) (hn : n ≤ 4) (live : saved → dir.pairExists .live)
      (good : saved → dir.Consistent .live ∨ dir.Consistent .bak)
      (data : 3 ≤ n → dir.file .tmp .data = some d)
      (graph : 4 ≤ n → dir.file .tmp .graph = some d) : Phase dir saved ((savePlan d).drop n)
  | dropBak (d : δ) (live : dir.pairExists .live)
      (good : saved → dir.Consistent .live ∨ dir.Consistent .bak)
      (data : dir.file .tmp .data = some d) (graph : dir.file .tmp .graph = some d) :
      Phase dir saved (removePair .bak ++ copyPair .live .bak ++ renamePair .tmp .live)
  | copyBak (d : δ) (n : Nat) (hn : n ≤ 2) (live : dir.pairExists .live)
      (good : saved → dir.Consistent .live)
      (data : dir.file .tmp .data = some d) (graph : dir.file .tmp .graph = some d)
      (copied : 2 ≤ n → dir.file .bak .data = dir.file .live .data) :
      Phase dir saved
        ((removePair .bak ++ copyPair .live .bak).drop (n + 1) ++ renamePair .tmp .live)
  | promote (d : δ) (live : saved → dir.pairExists .live)
      (good : saved → dir.Consistent .live ∧ dir.Consistent .bak)
      (data : dir.file .tmp .data = some d) (graph : dir.file .tmp .graph = some d) :
      Phase dir saved (renamePair .tmp .live)
  | promoteGraph (d : δ) (live : saved → dir.pairExists .live) (good : saved → dir.Consistent .bak)
      (data : dir.file .live .data = some d) (graph : dir.file .tmp .graph = some d) :
      Phase dir saved [.file (.rename .tmp .live .graph)]

/-- The invariant of a run whose steps all meet `BackupGuard`. -/
def Inv (s : Saver δ) : Prop := Phase s.dir s.saved s.todo

theorem Inv.crashSafe {s : Saver δ} (h : s.Inv) : s.CrashSafe := by
  intro hs
  unfold Inv at h
  generalize s.todo = todo at h
  cases h with
  | idle _ good => exact good hs
  | stage _ _ _ _ good => exact good hs
  | dropBak _ _ good => exact good hs
  | copyBak _ _ _ _ good => exact .inl (good hs)
  | promote _ _ good => exact .inl (good hs).1
  | promoteGraph _ _ good => exact .inr (good hs)

theorem Inv.live {s : Saver δ} (h : s.Inv) (hs : s.saved) : s.dir.pairExists .live := by
  unfold Inv at h
  generalize s.todo = todo at h
  cases h with
  | idle live => exact live hs
  | stage _ _ _ live => exact live hs
  | dropBak _ live => exact live
  | copyBak _ _ _ live => exact live
  | promote _ live => exact live hs
  | promoteGraph _ live => exact live hs

/-- A crash and the next call leave the files as they are. -/
theorem Inv.call {s : Saver δ} (h : s.Inv) (rawLen : Nat) (d : δ) :
    (s.step (.call rawLen d)).Inv := by
  by_cases h0 : rawLen = 0
  · simpa [Inv, step, h0] using Phase.idle h.live h.crashSafe
  · simpa [Inv, step, h0] using Phase.stage d 0 (by omega) h.live h.crashSafe (by omega) (by omega)

/-- The staging part of a save touches `_tmp` only. -/
theorem Phase.stage_op {dir : Dir δ} {saved : Bool} {d : δ} {n : Nat} (hn : n ≤ 3)
    (live : saved → dir.pairExists .live)
    (good : saved → dir.Consistent .live ∨ dir.Consistent .bak)
    (data : 3 ≤ n → dir.file .tmp .data = some d) :
    Inv (step ⟨dir, (savePlan d).drop n, saved⟩ .op) := by
  have frame (s : Suffix) (file : Option δ) :
      (saved → (dir.set .tmp s file).pairExists .live) ∧
        (saved → (dir.set .tmp s file).Consistent .live ∨
          (dir.set .tmp s file).Consistent .bak) := by
    rw [Dir.pairExists_set _ _ _ (by decide), Dir.consistent_set _ _ _ (by decide),
      Dir.consistent_set _ _ _ (by decide)]
    exact ⟨live, good⟩
  have next (s : Suffix) (file : Option δ)
      (hd : 3 ≤ n + 1 → (dir.set .tmp s file).file .tmp .data = some d)
      (hg : 4 ≤ n + 1 → (dir.set .tmp s file).file .tmp .graph = some d) :
      Phase (dir.set .tmp s file) saved ((savePlan d).drop (n + 1)) :=
    .stage d (n + 1) (by omega) (frame s file).1 (frame s file).2 hd hg
  match n, hn with
  | 0, _ =>
    simpa [Inv, step, savePlan, removePair, exec, FileOp.apply] using
      next .data none (by omega) (by omega)
  | 1, _ =>
    simpa [Inv, step, savePlan, removePair, fileDump, exec, FileOp.apply] using
      next .graph none (by omega) (by omega)
  | 2, _ =>
    simpa [Inv, step, savePlan, removePair, fileDump, exec, FileOp.apply] using
      next .data (some d) (by simp) (by omega)
  | 3, _ =>
    have hd : (dir.set .tmp .graph (some d)).file .tmp .data = some d := by
      rw [Dir.set_suffix_ne _ _ _ _ (by decide)]
      exact data (by omega)
    simpa [Inv, step, savePlan, removePair, fileDump, exec, FileOp.apply] using
      next .graph (some d) (fun _ => hd) (by simp)

/-- The test of `pair_exists`: a completed save has left a live pair, which gets backed up. -/
theorem Phase.backup_op {dir : Dir δ} {saved : Bool} {d : δ} (live : saved → dir.pairExists .live)
    (good : saved → dir.Consistent .live ∨ dir.Consistent .bak)
    (data : dir.file .tmp .data = some d) (graph : dir.file .tmp .graph = some d) :
    Inv (step ⟨dir, (savePlan d).drop 4, saved⟩ .op) := by
  by_cases hp : dir.pairExists .live
  · simpa [Inv, step, savePlan, removePair, fileDump, copyPair, renamePair, exec, hp] using
      Phase.dropBak d hp good data graph
  · have hs : saved = false := by
      cases saved with
      | false => rfl
      | true => exact absurd (live rfl) hp
    subst hs
    have next : Phase dir false (renamePair .tmp .live) := .promote d (by simp) (by simp) data graph
    simpa [Inv, step, savePlan, removePair, fileDump, copyPair, renamePair, exec, hp] using next

/-- The first removal needs the live pair, the guard of the run. -/
theorem Phase.dropBak_op {dir : Dir δ} {saved : Bool} {d : δ} (live : dir.pairExists .live)
    (guard : saved → dir.Consistent .live)
    (data : dir.file .tmp .data = some d) (graph : dir.file .tmp .graph = some d) :
    Inv (step ⟨dir, removePair .bak ++ copyPair .live .bak ++ renamePair .tmp .live, saved⟩
      .op) := by
  have hne : (.live : Basename) ≠ .bak := by decide
  have hte : (.tmp : Basename) ≠ .bak := by decide
  have next : Phase (dir.set .bak .data none) saved
      ((removePair .bak ++ copyPair .live .bak).drop (0 + 1) ++ renamePair .tmp .live) :=
    .copyBak d 0 (by omega) ((Dir.pairExists_set _ _ _ hne).2 live)
      (fun hs => (Dir.consistent_set _ _ _ hne).2 (guard hs))
      (by rwa [Dir.set_basename_ne _ _ _ _ hte]) (by rwa [Dir.set_basename_ne _ _ _ _ hte])
      (by omega)
  simpa [Inv, step, removePair, copyPair, renamePair, exec, FileOp.apply] using next

/-- While `_bak` is rewritten the live pair stays as it is. -/
theorem Phase.copyBak_op {dir : Dir δ} {saved : Bool} {d : δ} {n : Nat} (hn : n ≤ 2)
    (live : dir.pairExists .live) (good : saved → dir.Consistent .live)
    (data : dir.file .tmp .data = some d) (graph : dir.file .tmp .graph = some d)
    (copied : 2 ≤ n → dir.file .bak .data = dir.file .live .data) :
    Inv (step ⟨dir, (removePair .bak ++ copyPair .live .bak).drop (n + 1) ++ renamePair .tmp .live,
      saved⟩ .op) := by
  have hne : (.live : Basename) ≠ .bak := by decide
  have hte : (.tmp : Basename) ≠ .bak := by decide
  obtain ⟨ld, hld⟩ := Option.isSome_iff_exists.1 live.1
  obtain ⟨lg, hlg⟩ := Option.isSome_iff_exists.1 live.2
  have next (s : Suffix) (file : Option δ) (n' : Nat) (hn' : n' ≤ 2)
      (copied' : 2 ≤ n' → (dir.set .bak s file).file .bak .data = dir.file .live .data) :
      Phase (dir.set .bak s file) saved
        ((removePair .bak ++ copyPair .live .bak).drop (n' + 1) ++ renamePair .tmp .live) :=
    .copyBak d n' hn' ((Dir.pairExists_set _ _ _ hne).2 live)
      (fun hs => (Dir.consistent_set _ _ _ hne).2 (good hs))
      (by rwa [Dir.set_basename_ne _ _ _ _ hte]) (by rwa [Dir.set_basename_ne _ _ _ _ hte])
      (fun h => by rw [copied' h, Dir.set_basename_ne _ _ _ _ hne])
  match n, hn with
  | 0, _ =>
    simpa [Inv, step, removePair, copyPair, renamePair, exec, FileOp.apply] using
      next .graph none 1 (by omega) (by omega)
  | 1, _ =>
    simpa [Inv, step, removePair, copyPair, renamePair, exec, FileOp.apply, hld] using
      next .data (some ld) 2 (by omega) (by simp [hld])
  | 2, _ =>
    have hbak (hs : saved) : (dir.set .bak .graph (some lg)).Consistent .bak := by
      have hb : (dir.set .bak .graph (some lg)).file .bak .data = some lg := by
        rw [Dir.set_suffix_ne _ _ _ _ (by decide), copied (by omega), (good hs).2, hlg]
      exact ⟨by simp [hb], by rw [hb, Dir.set_same]⟩
    have hlive : (dir.set .bak .graph (some lg)).pairExists .live :=
      (Dir.pairExists_set _ _ _ hne).2 live
    simpa [Inv, step, removePair, copyPair, renamePair, exec, FileOp.apply, hlg] using
      Phase.promote d (fun _ => hlive)
        (fun hs => ⟨(Dir.consistent_set _ _ _ hne).2 (good hs), hbak hs⟩)
        (by rwa [Dir.set_basename_ne _ _ _ _ hte]) (by rwa [Dir.set_basename_ne _ _ _ _ hte])

/-- Between the renames the live pair is mixed and `_bak` carries the property. -/
theorem Phase.promote_op {dir : Dir δ} {saved : Bool} {d : δ} (live : saved → dir.pairExists .live)
    (good : saved → dir.Consistent .live ∧ dir.Consistent .bak)
    (data : dir.file .tmp .data = some d) (graph : dir.file .tmp .graph = some d) :
    Inv (step ⟨dir, renamePair .tmp .live, saved⟩ .op) := by
  let dir' := (dir.set .tmp .data none).set .live .data (some d)
  have hg (b : Basename) : dir'.file b .graph = dir.file b .graph := by
    simp only [dir']
    rw [Dir.set_suffix_ne _ _ _ _ (by decide), Dir.set_suffix_ne _ _ _ _ (by decide)]
  have hlive (hs : saved) : dir'.pairExists .live := ⟨by simp [dir'], by rw [hg]; exact (live hs).2⟩
  have hbak (hs : saved) : dir'.Consistent .bak :=
    (Dir.consistent_set _ _ _ (by decide)).2 ((Dir.consistent_set _ _ _ (by decide)).2 (good hs).2)
  simpa [Inv, step, renamePair, exec, FileOp.apply, data] using
    Phase.promoteGraph d hlive hbak (Dir.set_same ..) (by rw [hg, graph])

/-- The last rename completes the save. -/
theorem Phase.promoteGraph_op {dir : Dir δ} {saved : Bool} {d : δ}
    (data : dir.file .live .data = some d) (graph : dir.file .tmp .graph = some d) :
    Inv (step ⟨dir, [.file (.rename .tmp .live .graph)], saved⟩ .op) := by
  let dir' := (dir.set .tmp .graph none).set .live .graph (some d)
  have hd : dir'.file .live .data = some d := by
    simp only [dir']
    rw [Dir.set_suffix_ne _ _ _ _ (by decide), Dir.set_suffix_ne _ _ _ _ (by decide), data]
  have hlive : dir'.Consistent .live := ⟨by simp [hd], by rw [hd]; simp [dir']⟩
  have next : Phase dir' true [] := .idle (fun _ => hlive.pairExists) fun _ => .inl hlive
  simpa [Inv, step, exec, FileOp.apply, graph] using next

/-- A step of the save in flight, one case per phase. -/
theorem Inv.op {s : Saver δ} (h : s.Inv) (hg : s.saved → s.DropsBak → s.dir.Consistent .live) :
    (s.step .op).Inv := by
  obtain ⟨dir, todo, saved⟩ := s
  unfold Inv at h
  simp only at h hg
  cases h with
  | idle live good => exact .idle live good
  | stage d n hn live good data graph =>
    by_cases h4 : n ≤ 3
    · exact Phase.stage_op h4 live good data
    · obtain rfl : n = 4 := by omega
      exact Phase.backup_op live good (data (by omega)) (graph (by omega))
  | dropBak d live _ data graph => exact Phase.dropBak_op live (fun hs => hg hs rfl) data graph
  | copyBak d n hn live good data graph copied =>
    exact Phase.copyBak_op hn live good data graph copied
  | promote d live good data graph => exact Phase.promote_op live good data graph
  | promoteGraph d _ _ data graph => exact Phase.promoteGraph_op data graph

theorem Inv.step {s : Saver δ} (e : SaveEvent δ) (h : s.Inv) (hg : s.BackupGuard e) :
    (s.step e).Inv := by
  cases e with
  | call rawLen d => exact h.call rawLen d
  | op => exact h.op (hg rfl)

/-- Starting to replace `_bak` over a mixed live pair is at once a state with no readable pair. -/
theorem backupGuard_of_crashSafe {s : Saver δ} {e : SaveEvent δ} (h : (s.step e).CrashSafe) :
    s.BackupGuard e := by
  cases e with
  | call => exact fun he => nomatch he
  | op =>
    rintro - hs hdrop
    obtain ⟨dir, todo, saved⟩ := s
    match todo, hdrop with
    | .file (.remove .bak .data) :: rest, _ =>
      have hsafe := h (by simp_all [Saver.step, exec, FileOp.apply])
      simp only [Saver.step, exec, FileOp.apply, Option.map_some] at hsafe
      rcases hsafe with hlive | hbak
      · exact (Dir.consistent_set _ _ _ (by decide)).1 hlive
      · simp [Dir.Consistent] at hbak

/-- A run over any directory keeps a readable pair in every state after its first completed save
exactly when every removal of `_bak` then happens over a consistent live pair. -/
theorem save_crashSafe_iff (dir : Dir δ) (es : List (SaveEvent δ)) :
    Run.Always step CrashSafe (start dir) es ↔ Run.Guarded step BackupGuard (start dir) es := by
  have h0 : (start dir).Inv := .idle (by simp [start]) (by simp [start])
  constructor
  · intro h
    exact h.guarded (fun _ => True) (fun _ _ _ => trivial)
      (fun _ _ _ _ hnext => backupGuard_of_crashSafe hnext) trivial
  · intro h
    exact h.always Inv (fun _ e hi hg => hi.step e hg) (fun _ => Inv.crashSafe) h0

/-- Save one dump; cut the next save between its two renames; let a third one get as far as removing
`_bak`. No readable pair is left. -/
def mixedThenBackup : List (SaveEvent Nat) :=
  .call 1 1 :: List.replicate 7 .op ++ .call 1 2 :: List.replicate 10 .op ++
    .call 1 3 :: List.replicate 6 .op

theorem mixedThenBackup_not_crashSafe :
    ¬Run.Always step CrashSafe (start Dir.empty) mixedThenBackup := fun h =>
  absurd h.last (by decide)

end Saver

/-- `save`, run to its end: a first step, then at most eleven file operations. -/
def save {δ : Type*} (rawLen : Nat) (d : δ) (dir : Dir δ) : Dir δ :=
  (Run.run Saver.step (Saver.start dir) (.call rawLen d :: List.replicate 11 .op)).dir

@[simp] theorem save_zero {δ : Type*} (d : δ) (dir : Dir δ) : save 0 d dir = dir := rfl

/-- A completed save: the new dump is live, what was live is in `_bak`, and `_tmp` is gone. -/
theorem save_file {δ : Type*} {rawLen : Nat} (h : rawLen ≠ 0) (d : δ) (dir : Dir δ) :
    (save rawLen d dir).file .live = (fun _ => some d) ∧
    (save rawLen d dir).file .bak =
      (if dir.pairExists .live then dir.file .live else dir.file .bak) ∧
    (save rawLen d dir).file .tmp = fun _ => none := by
  have htmp (s : Suffix) (file : Option δ) (dir : Dir δ) :
      (dir.set .tmp s file).pairExists .live ↔ dir.pairExists .live :=
    Dir.pairExists_set dir s file (by decide)
  by_cases hp : dir.pairExists .live
  · obtain ⟨ld, hld⟩ := Option.isSome_iff_exists.1 hp.1
    obtain ⟨lg, hlg⟩ := Option.isSome_iff_exists.1 hp.2
    have hsave : save rawLen d dir =
        (((((((((((dir.set .tmp .data none).set .tmp .graph none).set .tmp .data (some d)).set .tmp
          .graph
          (some d)).set .bak .data none).set .bak .graph none).set .bak .data (some ld)).set .bak
          .graph
          (some lg)).set .tmp .data none).set .live .data (some d)).set .tmp .graph none).set .live
          .graph (some d) := by
      simp [save, Saver.step, Saver.start, List.replicate, h, htmp, hp, savePlan, removePair,
        fileDump,
        copyPair, renamePair, exec, FileOp.apply, Dir.set_basename_ne, Dir.set_suffix_ne, hld, hlg]
    rw [hsave, if_pos hp]
    refine ⟨?_, ?_, ?_⟩ <;> funext s <;> cases s <;> simp [Dir.set, hld, hlg]
  · have hsave : save rawLen d dir =
        (((((((dir.set .tmp .data none).set .tmp .graph none).set .tmp .data (some d)).set .tmp
          .graph
          (some d)).set .tmp .data none).set .live .data (some d)).set .tmp .graph none).set .live
          .graph (some d) := by
      simp [save, Saver.step, Saver.start, List.replicate, h, htmp, hp, savePlan, removePair,
        fileDump, renamePair, exec, FileOp.apply, Dir.set_basename_ne, Dir.set_suffix_ne]
    rw [hsave, if_neg hp]
    refine ⟨?_, ?_, ?_⟩ <;> funext s <;> cases s <;> simp [Dir.set]

end Solo
