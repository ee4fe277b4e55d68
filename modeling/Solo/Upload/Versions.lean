import Solo.Lib.Run
import Solo.Upload.Manifest

/-!
# Manifests do not move backwards, unless a recovered one is overwritten

A history is a sequence of `write_manifest` calls on one upload, each cut by a crash or not, and of
loads between them. `NeverBackwards` says that every load since the first completed write answers
with a manifest `M_j` that was written, no older than the last completed one, and that the `j` of
successive loads do not decrease.

A crash after `tmp` is written leaves the newest manifest in `tmp` alone, and the loader answers
with it. The next `write_manifest` begins by deleting `tmp`: cut before the new one is whole, it
takes the loader back to the older primary (`recoveredLost_not_neverBackwards`).
`neverBackwards_always`: this is the only way.
-/

namespace Solo

open Crash

/-- A load with what had been written when it was made. -/
structure Loaded where
  result : Except Error UploadManifest
  started : Nat
  completed : Nat

structure ManifestHistory where
  staging : Staging
  /-- `M_1`, `M_2`, …: what was passed to `write_manifest`. -/
  written : List UploadManifest
  /-- The index of the last write that completed, 0 before the first. -/
  completed : Nat
  /-- The loads made since the first completed write. -/
  loads : List Loaded
  /-- A load was answered from `tmp`, and that state has not reached the primary since. -/
  recovered : Bool

inductive ManifestCall (id : String)
  | write (m : {m : UploadManifest // m.uploadId = id}) (crash : Option (ℕ × ℕ))
  | load

namespace ManifestHistory

def start : ManifestHistory := ⟨.empty, [], 0, [], false⟩

/-- `tmp` parses. -/
def tmpWhole (s : Staging) : Bool := ((s.manifests .tmp).bind ManifestText.parse).isSome

def step (id : String) (h : ManifestHistory) : ManifestCall id → ManifestHistory
  | .write m crash =>
    match (writeManifest m.1).run (Crash.Event.crashAt crash) h.staging with
    | (reply, staging) =>
      { staging
        written := h.written ++ [m.1]
        completed :=
          match reply with
          | some (.ok _) => h.written.length + 1
          | _ => h.completed
        loads := h.loads
        recovered := h.recovered && tmpWhole staging }
  | .load =>
    if h.completed = 0 then h
    else
      { h with
        loads := h.loads ++ [⟨loadManifestForUpload h.staging id, h.written.length, h.completed⟩]
        recovered := h.recovered || tmpWhole h.staging }

/-- The load answered with `M_j`. -/
structure Answers (written : List UploadManifest) (l : Loaded) (j : Nat) : Prop where
  pos : 1 ≤ j
  started : j ≤ l.started
  completed : l.completed ≤ j
  result : ∃ m, written[j - 1]? = some m ∧ l.result = .ok m

/-- Each load answers with some `M_j` that was written, at least as new as the last completed write,
and the `j` do not decrease. -/
def NeverBackwards (h : ManifestHistory) : Prop :=
  ∃ js : List Nat, List.Forall₂ (Answers h.written) h.loads js ∧ js.Pairwise (· ≤ ·)

/-- After a load was answered from `tmp`, no write is cut between the removal of `tmp` and the end
of its own `tmp`. -/
def KeepsRecovered (id : String) (h : ManifestHistory) : ManifestCall id → Prop
  | .write _ (some (1, _)) => h.recovered = false
  | _ => True

/-- `j` is the index of the manifest a file holds, 0 where it holds none. -/
def Indexed (written : List UploadManifest) : Option UploadManifest → Nat → Prop
  | some m, j => 1 ≤ j ∧ written[j - 1]? = some m
  | none, j => j = 0

section Indexed

variable {written : List UploadManifest} {o : Option UploadManifest} {m : UploadManifest} {j : Nat}
  {l : Loaded}

theorem Indexed.le_length (h : Indexed written o j) : j ≤ written.length := by
  cases o with
  | none => exact h ▸ Nat.zero_le _
  | some m =>
    obtain ⟨hpos, hm⟩ := h
    have := (List.getElem?_eq_some_iff.1 hm).1
    omega

theorem Indexed.snoc (h : Indexed written o j) (m : UploadManifest) :
    Indexed (written ++ [m]) o j := by
  cases o with
  | none => exact h
  | some m' =>
    refine ⟨h.1, ?_⟩
    rw [List.getElem?_append_left (List.getElem?_eq_some_iff.1 h.2).1]
    exact h.2

theorem indexed_last (written : List UploadManifest) (m : UploadManifest) :
    Indexed (written ++ [m]) (some m) (written.length + 1) :=
  ⟨by omega, by simp⟩

theorem Answers.snoc (h : Answers written l j) (m : UploadManifest) :
    Answers (written ++ [m]) l j := by
  obtain ⟨m', hm', hr⟩ := h.result
  exact ⟨h.pos, h.started, h.completed, m', (Indexed.snoc (o := some m') ⟨h.pos, hm'⟩ m).2, hr⟩

end Indexed

/-- The manifests the files hold have indices `t` (staged) and `p` (stable), and the answers of the
loads so far are no newer than the staged one, nor than the stable one unless `recovered` is set. -/
structure Inv (id : String) (h : ManifestHistory) (staged stable : Option UploadManifest)
    (t p : Nat) (js : List Nat) : Prop where
  holds : Holds h.staging staged stable
  ids : ∀ m ∈ h.written, m.uploadId = id
  stagedIdx : Indexed h.written staged t
  stableIdx : Indexed h.written stable p
  ahead : staged.isSome → p ≤ t
  completed : h.completed ≤ p
  recovered : h.recovered = true → staged.isSome
  answers : List.Forall₂ (Answers h.written) h.loads js
  sorted : js.Pairwise (· ≤ ·)
  le_written : ∀ j ∈ js, j ≤ h.written.length
  le_staged : staged.isSome → ∀ j ∈ js, j ≤ t
  le_stable : h.recovered = false → ∀ j ∈ js, j ≤ p

theorem tmpWhole_eq {s : Staging} {staged stable : Option UploadManifest}
    (hs : Holds s staged stable) : tmpWhole s = staged.isSome := by
  rw [tmpWhole, hs.staged]

namespace Inv

variable {id : String} {h : ManifestHistory} {staged stable : Option UploadManifest} {t p : Nat}
  {js : List Nat}
variable {m : UploadManifest} {s : Staging}

/-- A load answers with the staged manifest if there is one, else with the stable one. -/
theorem load (hi : Inv id h staged stable t p js) :
    ∃ js', Inv id (h.step id .load) staged stable t p js' := by
  by_cases hc : h.completed = 0
  · exact ⟨js, by simpa [step, hc] using hi⟩
  have hpos : 1 ≤ p := Nat.le_trans (Nat.pos_of_ne_zero hc) hi.completed
  obtain ⟨m, rfl⟩ : ∃ m, stable = some m := by
    cases stable with
    | some m => exact ⟨m, rfl⟩
    | none => exact absurd hi.stableIdx (by simp only [Indexed]; omega)
  -- the index of the answer bounds every earlier one
  have key : ∃ j m', (staged <|> some m) = some m' ∧ Indexed h.written (some m') j ∧ p ≤ j ∧
      (∀ i ∈ js, i ≤ j) ∧ (staged.isSome → j ≤ t) ∧ (staged = none → j ≤ p) := by
    cases hst : staged with
    | some m' =>
      have hs : staged.isSome := by simp [hst]
      exact ⟨t,
        m', by simp, hst ▸ hi.stagedIdx, hi.ahead hs, hi.le_staged hs, fun _ => Nat.le_refl _, nofun⟩
    | none =>
      have hr : h.recovered = false := by
        cases hr : h.recovered with
        | false => rfl
        | true => simpa [hst] using hi.recovered hr
      exact ⟨p,
        m, by simp, hi.stableIdx, Nat.le_refl _, hi.le_stable hr, nofun, fun _ => Nat.le_refl _⟩
  obtain ⟨j, m', hm', hidx, hpj, hjs, hjt, hjp⟩ := key
  have hmem : m' ∈ h.written := List.mem_of_getElem? hidx.2
  refine ⟨js ++ [j], ?_⟩
  have hloads : List.Forall₂ (Answers h.written)
      (h.loads ++ [⟨loadManifestForUpload h.staging id, h.written.length, h.completed⟩])
      (js ++ [j]) :=
    List.rel_append hi.answers (.cons
      ⟨hidx.1, hidx.le_length, hi.completed.trans hpj, m', hidx.2,
        hi.holds.load hm' (hi.ids m' hmem)⟩ .nil)
  have hle {n : Nat} (h₁ : ∀ i ∈ js, i ≤ n) (h₂ : j ≤ n) : ∀ i ∈ js ++ [j], i ≤ n := by
    intro i hmem
    rcases List.mem_append.1 hmem with hmem | hmem
    · exact h₁ i hmem
    · exact List.mem_singleton.1 hmem ▸ h₂
  simp only [step, hc, if_false]
  exact {
    hi with
    answers := hloads
    recovered := fun hr => by
      rcases Bool.or_eq_true _ _ ▸ hr with hr | hr
      · exact hi.recovered hr
      · exact tmpWhole_eq hi.holds ▸ hr
    sorted := List.pairwise_append.2 ⟨hi.sorted, List.pairwise_singleton _ _, fun i hmem k hk =>
      List.mem_singleton.1 hk ▸ hjs i hmem⟩
    le_written := hle hi.le_written hidx.le_length
    le_staged := fun hs => hle (hi.le_staged hs) (hjt hs)
    le_stable := fun hr => by
      obtain ⟨hr, ht⟩ := Bool.or_eq_false_iff.1 hr
      refine hle (hi.le_stable hr) (hjp ?_)
      rw [tmpWhole_eq hi.holds] at ht
      simpa using ht }

/-- What every write leaves of the invariant. -/
theorem written (hi : Inv id h staged stable t p js) (hm : m.uploadId = id) :
    (∀ m' ∈ h.written ++ [m], m'.uploadId = id) ∧
      List.Forall₂ (Answers (h.written ++ [m])) h.loads js ∧
      ∀ j ∈ js, j ≤ (h.written ++ [m]).length := by
  refine ⟨fun m' hmem => ?_, hi.answers.imp fun l j ha => ha.snoc m, fun j hj => ?_⟩
  · rcases List.mem_append.1 hmem with hmem | hmem
    · exact hi.ids m' hmem
    · exact List.mem_singleton.1 hmem ▸ hm
  · have := hi.le_written j hj
    rw [List.length_append, List.length_singleton]
    omega

/-- The write was cut before it did anything. -/
theorem untouched (hi : Inv id h staged stable t p js) (hm : m.uploadId = id) :
    Inv id ⟨h.staging, h.written ++ [m], h.completed, h.loads, h.recovered && tmpWhole h.staging⟩
    staged stable
      t p js := by
  obtain ⟨hids, hans, hle⟩ := hi.written hm
  have hr : (h.recovered && tmpWhole h.staging) = h.recovered := by
    cases hr : h.recovered with
    | false => rfl
    | true => rw [tmpWhole_eq hi.holds, hi.recovered hr, Bool.and_true]
  exact {
    holds := hi.holds
    ids := hids
    stagedIdx := hi.stagedIdx.snoc m
    stableIdx := hi.stableIdx.snoc m
    ahead := hi.ahead
    completed := hi.completed
    recovered := fun h' => hi.recovered (hr ▸ h')
    answers := hans
    sorted := hi.sorted
    le_written := hle
    le_staged := hi.le_staged
    le_stable := fun h' => hi.le_stable (hr ▸ h') }

/-- The old `tmp` is gone and the new one is not whole. -/
theorem dropped (hi : Inv id h staged stable t p js) (hm : m.uploadId = id)
    (hs : Holds s none stable) (hr : h.recovered = false) :
    Inv id ⟨s, h.written ++ [m], h.completed, h.loads, h.recovered && tmpWhole s⟩
    none stable 0 p js := by
  obtain ⟨hids, hans, hle⟩ := hi.written hm
  exact {
    holds := hs
    ids := hids
    stagedIdx := rfl
    stableIdx := hi.stableIdx.snoc m
    ahead := nofun
    completed := hi.completed
    recovered := fun h' => by simp [hr] at h'
    answers := hans
    sorted := hi.sorted
    le_written := hle
    le_staged := nofun
    le_stable := fun _ => hi.le_stable hr }

/-- The new manifest has reached `tmp`. -/
theorem staged' (hi : Inv id h staged stable t p js) (hm : m.uploadId = id)
    (hs : Holds s (some m) stable) :
    Inv id ⟨s, h.written ++ [m], h.completed, h.loads, h.recovered && tmpWhole s⟩ (some m) stable
      (h.written.length + 1) p js := by
  obtain ⟨hids, hans, hle⟩ := hi.written hm
  have hr : (h.recovered && tmpWhole s) = h.recovered := by
    rw [tmpWhole_eq hs, Option.isSome_some, Bool.and_true]
  exact {
    holds := hs
    ids := hids
    stagedIdx := indexed_last h.written m
    stableIdx := hi.stableIdx.snoc m
    ahead := fun _ => Nat.le_succ_of_le hi.stableIdx.le_length
    completed := hi.completed
    recovered := fun _ => rfl
    answers := hans
    sorted := hi.sorted
    le_written := hle
    le_staged := fun _ j hj => Nat.le_succ_of_le (hi.le_written j hj)
    le_stable := fun h' => hi.le_stable (hr ▸ h') }

/-- The new manifest has reached the primary. -/
theorem published (hi : Inv id h staged stable t p js) (hm : m.uploadId = id)
    (hs : Holds s none (some m)) {c : Nat} (hc : c ≤ h.written.length + 1) :
    Inv id ⟨s, h.written ++ [m], c, h.loads, h.recovered && tmpWhole s⟩ none (some m)
    0 (h.written.length + 1)
      js := by
  obtain ⟨hids, hans, hle⟩ := hi.written hm
  have hr : (h.recovered && tmpWhole s) = false := by
    rw [tmpWhole_eq hs, Option.isSome_none, Bool.and_false]
  exact {
    holds := hs
    ids := hids
    stagedIdx := rfl
    stableIdx := indexed_last h.written m
    ahead := nofun
    completed := hc
    recovered := fun h' => by simp [hr] at h'
    answers := hans
    sorted := hi.sorted
    le_written := hle
    le_staged := nofun
    le_stable := fun _ j hj => Nat.le_succ_of_le (hi.le_written j hj) }

/-- One call: which of the four outcomes a write has depends on where it is cut. -/
theorem step (hi : Inv id h staged stable t p js) (c : ManifestCall id)
    (hc : KeepsRecovered id h c) :
    ∃ staged' stable' t' p' js', Inv id (h.step id c) staged' stable' t' p' js' := by
  cases c with
  | load =>
    obtain ⟨js', hi'⟩ := hi.load
    exact ⟨_, _, _, _, _, hi'⟩
  | write m crash =>
    obtain ⟨m, hm⟩ := m
    simp only [ManifestHistory.step]
    have hlast : h.completed ≤ h.written.length + 1 :=
      hi.completed.trans (Nat.le_succ_of_le hi.stableIdx.le_length)
    match crash, hc with
    | none, _ =>
      obtain ⟨r, s, hrun⟩ := Prog.run_nil (writeManifest m) h.staging
      obtain ⟨rfl, hs, -⟩ := Prog.wp_reply (writeManifest_wp m hi.holds) (by simp) hrun
      simp only [Crash.Event.crashAt, hrun]
      exact ⟨_, _, _, _, _, hi.published hm hs (Nat.le_refl _)⟩
    | some (0, n), _ =>
      rw [Crash.Event.crashAt_zero, writeManifest_run_untouched]
      exact ⟨_, _, _, _, _, hi.untouched hm⟩
    | some (1, n), hc =>
      rw [Crash.Event.crashAt_succ, Crash.Event.crashAt_zero, writeManifest_run_torn]
      exact ⟨_, _, _, _, _, hi.dropped hm (hi.holds.of_torn m n) hc⟩
    | some (i + 2, n), _ =>
      have hwp := publishManifest_wp (hi.holds.of_staged m)
      rw [Crash.Event.crashAt_succ, Crash.Event.crashAt_succ, writeManifest_run_staged]
      have hes : ∀ e ∈ Crash.Event.crashAt (some (i, n)), e.NoError :=
        fun _ => Crash.Event.noError_crashAt
      cases hrun : publishManifest.run (Crash.Event.crashAt (some (i, n))) (h.staging.staged m) with
      | mk reply s =>
        cases reply with
        | some r =>
          obtain ⟨rfl, hs, -⟩ := Prog.wp_reply hwp hes hrun
          exact ⟨_, _, _, _, _, hi.published hm hs (Nat.le_refl _)⟩
        | none =>
          rcases (Prog.wp_crash hwp hes hrun).1 with hs | hs
          · exact ⟨_, _, _, _, _, hi.staged' hm hs⟩
          · exact ⟨_, _, _, _, _, hi.published hm hs hlast⟩

theorem neverBackwards (hi : Inv id h staged stable t p js) : NeverBackwards h :=
  ⟨js, hi.answers, hi.sorted⟩

end Inv

theorem inv_start (id : String) : Inv id start none none 0 0 [] where
  holds := ⟨rfl, .inr ⟨rfl, rfl⟩⟩
  ids := fun _ hm => absurd hm List.not_mem_nil
  stagedIdx := rfl
  stableIdx := rfl
  ahead := nofun
  completed := Nat.le_refl _
  recovered := nofun
  answers := .nil
  sorted := .nil
  le_written := nofun
  le_staged := nofun
  le_stable := nofun

/-- In every run in which no write is cut while the manifest it recovered from exists nowhere else,
the loads never move backwards. -/
theorem neverBackwards_always (id : String) (calls : List (ManifestCall id))
    (hg : Run.Guarded (step id) (KeepsRecovered id) start calls) :
    Run.Always (step id) NeverBackwards start calls :=
  hg.always (fun h => ∃ staged stable t p js, Inv id h staged stable t p js)
    (fun _ c ⟨_, _, _, _, _, hi⟩ hc => hi.step c hc)
    (fun _ ⟨_, _, _, _, _, hi⟩ => hi.neverBackwards) ⟨none, none, 0, 0, [], inv_start id⟩

/-! ### The manifest that is lost -/

namespace RecoveredLost

def uploadId : String := "0190a5f0-0000-7000-8000-000000000001"

/-- The manifest of a prepared upload of ten bytes after `n` of them. -/
def manifest (n : Nat) : {m : UploadManifest // m.uploadId = uploadId} :=
  ⟨{ uploadId, filename := "notes.md", sanitizedFilename := "notes.md", mimeType := "text/markdown"
     sizeBytes := 10, expectedSha256 := none, actualSha256 := none, bytesReceived := n,
     status := .open
     createdAtMs := 1000, expiresAtMs := 3601000, ingestResult := none }, rfl⟩

/-- The first write completes; the second is cut once its `tmp` is whole; the third is cut once it
has deleted that `tmp`. -/
def calls : List (ManifestCall uploadId) :=
  [.write (manifest 0) none, .write (manifest 4) (some (2, 0)), .load,
    .write (manifest 9) (some (1, 0)), .load]

def answers : List Loaded :=
  [⟨.ok (manifest 4).1, 2, 1⟩, ⟨.ok (manifest 0).1, 3, 1⟩]

end RecoveredLost

theorem answers_pair {written : List UploadManifest} {l₁ l₂ : Loaded} {js : List Nat}
    (h : List.Forall₂ (Answers written) [l₁, l₂] js) (hs : js.Pairwise (· ≤ ·)) :
    ∃ j₁ j₂, Answers written l₁ j₁ ∧ Answers written l₂ j₂ ∧ j₁ ≤ j₂ := by
  match js, h with
  | [j₁, j₂], .cons h₁ (.cons h₂ .nil) =>
    exact ⟨j₁, j₂, h₁, h₂, List.rel_of_pairwise_cons hs List.mem_cons_self⟩

open RecoveredLost in
theorem recoveredLost_not_neverBackwards :
    ¬ NeverBackwards (Run.run (step uploadId) start calls) := by
  have hloads : (Run.run (step uploadId) start calls).loads = answers := rfl
  have hwritten : (Run.run (step uploadId) start calls).written =
      [(manifest 0).1, (manifest 4).1, (manifest 9).1] :=
    rfl
  rintro ⟨js, hans, hsorted⟩
  rw [hloads, hwritten] at hans
  obtain ⟨j₁, j₂, h₁, h₂, hle⟩ := answers_pair hans hsorted
  -- the first load answers with the second manifest, the other with the first
  have hj₁ : j₁ ≠ 1 := fun h => by
    obtain ⟨m, hm, hr⟩ := h₁.result
    obtain rfl := Except.ok.inj hr
    simp [h, manifest] at hm
  have hj₂ : j₂ < 2 := by
    obtain ⟨m, hm, hr⟩ := h₂.result
    obtain rfl := Except.ok.inj hr
    obtain rfl | rfl | h : j₂ = 2 ∨ j₂ = 3 ∨ j₂ < 2 := by
      have : j₂ ≤ 3 := h₂.started
      omega
    · simp [manifest] at hm
    · simp [manifest] at hm
    · exact h
  have := h₁.pos
  omega

/-- A crash that leaves the old `tmp` alone is harmless. -/
theorem neverBackwards_always_cut :
    Run.Always (step RecoveredLost.uploadId) NeverBackwards start
      [.write (RecoveredLost.manifest 0) none, .write (RecoveredLost.manifest 4) (some (2, 0)),
        .load, .write (RecoveredLost.manifest 9) (some (0, 0)), .load] :=
  neverBackwards_always RecoveredLost.uploadId _ ⟨trivial, trivial, trivial, trivial, trivial,
    trivial⟩

end ManifestHistory

end Solo
