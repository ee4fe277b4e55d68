import Solo.Asset.Agree
import Solo.Backup.Restore
import Solo.Lib.Run

/-!
# A restore is all or nothing, unless it dies in the swap

The live database is moved away before the staged one is renamed into place, and the assets follow
in renames of their own; nothing puts the pieces together after a crash
(`crashBeforePromote_not_allOrNothing`). `restore_allOrNothing`: without a crash between the first
and the last rename of the swap, and if the rollback can remove the promoted database, the live
files are all old or all restored wherever the restore ends.
-/

namespace Solo

namespace RestoreDir

variable {T : Type}

section Spec

variable (key : Aead) (sha256 : List UInt8 → String) (src : RestoreSource T) (auditRow : T → T)

/-- The database of the backup, alone, before or after the audit row. -/
def RestoredFamily (family : DbFamily T) : Prop :=
  (family .db = some (.database (Backup.stripAssetBlobs src.image)) ∨
    family .db =
      some (.database
        { Backup.stripAssetBlobs src.image with tables := auditRow src.image.tables })) ∧
  family .wal = none ∧ family .shm = none

/-- The assets of the backup; one without the table leaves them as they are. -/
def restoredAssets (old : Option AssetFiles) : Except Error (Option AssetFiles) :=
  (Backup.stageAssetBlobs key sha256 src.image).map fun staged => staged.or old

/-- Where a restore has ended, the live files are the old ones, or the restored ones. -/
def AllOrNothing (d₀ d : RestoreDir T) : Prop :=
  d.stopped = true → d.family = d₀.family ∧ d.assets = d₀.assets ∨
    RestoredFamily src auditRow d.family ∧ restoredAssets key sha256 src d₀.assets = .ok d.assets

end Spec

/-- The operations of the swap, from the moment a live file is moved; before the first of them
nothing is retired. -/
def inSwap (d : RestoreDir T) : Prop :=
  match d.pc with
  | .retire _ | .promoteDb => ∃ p, d.retired p ≠ none
  | .createSnapshotDir | .assetsAside | .assetsIn | .assetsBack _ | .removePromoted _ => True
  | .unretire _ _ => ∃ p, d.retired p ≠ none
  | _ => False

/-- No crash in the swap; the renames of the rollback succeed, and so does the removal of the
promoted database. -/
def SwapGuard (d : RestoreDir T) : RestoreEvent → Prop
  | .crash => ¬ d.inSwap
  | .err =>
    match d.pc with
    | .removePromoted _ => False
    | .assetsBack _ => d.oldAssets = none
    | .unretire (p :: _) _ => d.retired p = none
    | _ => True
  | .ok => True

/-! ### The invariant -/

/-- A file of the old database is in place or moved aside. -/
def Part (d d₀ : RestoreDir T) (p : DbPart) : Prop :=
  d.family p = d₀.family p ∧ d.retired p = none ∨ d.family p = none ∧ d.retired p = d₀.family p

/-- Nothing live has been touched. -/
def Untouched (d d₀ : RestoreDir T) : Prop :=
  d.family = d₀.family ∧ d.retired = (fun _ => none) ∧ d.assets = d₀.assets

section Inv

variable (key : Aead) (sha256 : List UInt8 → String) (src : RestoreSource T) (auditRow : T → T)

/-- The new database is live; the old one is aside. -/
def Promoted (d₀ d : RestoreDir T) : Prop :=
  d.family = Function.update (fun _ => none)
    .db (some (.database (Backup.stripAssetBlobs src.image))) ∧
    d.retired = d₀.family ∧ Backup.stageAssetBlobs key sha256 src.image = .ok d.stagedAssets

/-- The live files are those of the backup; the audit row is still to come. -/
def Swapped (d₀ d : RestoreDir T) : Prop :=
  d.family = Function.update (fun _ => none)
    .db (some (.database (Backup.stripAssetBlobs src.image))) ∧
    restoredAssets key sha256 src d₀.assets = .ok d.assets

/-- The blobs before `rest` are staged. -/
def StagedUpTo (rest : List BackupAssetRow) (d : RestoreDir T) : Prop :=
  ∃ rows dir before, src.image.assetBlobs = some rows ∧ Backup.stagingOrder rows = before ++ rest ∧
    before.foldlM (Backup.stageAssetBlob key sha256 src.image.assets) (fun _ => none) = .ok dir ∧
    d.stagedAssets = some dir

def Restored (d₀ d : RestoreDir T) : Prop :=
  RestoredFamily src auditRow d.family ∧ restoredAssets key sha256 src d₀.assets = .ok d.assets

/-- Old or restored: what `AllOrNothing` asks where the restore has stopped. -/
def Whole (d₀ d : RestoreDir T) : Prop :=
  d.family = d₀.family ∧ d.assets = d₀.assets ∨ Restored key sha256 src auditRow d₀ d

def Inv (d₀ d : RestoreDir T) : Prop :=
  match d.pc with
  | .check | .removeStaging | .copy => d.Untouched d₀ ∧ d.stagedAssets = none
  | .strip => d.Untouched d₀ ∧ d.stagedAssets = none
  | .discard _ => d.Untouched d₀
  | .createAssetStaging =>
    d.Untouched d₀ ∧ d.stagedAssets = none
  | .stageBlob rest => d.Untouched d₀ ∧ StagedUpTo key sha256 src rest d
  | .fsync => d.Untouched d₀ ∧ Backup.stageAssetBlobs key sha256 src.image = .ok d.stagedAssets
  | .retire todo => (∀ p, d.Part d₀ p ∧ (p ∉ todo → d.family p = none)) ∧ d.assets = d₀.assets ∧
      Backup.stageAssetBlobs key sha256 src.image = .ok d.stagedAssets
  | .promoteDb => (∀ p, d.family p = none ∧ d.retired p = d₀.family p) ∧ d.assets = d₀.assets ∧
      Backup.stageAssetBlobs key sha256 src.image = .ok d.stagedAssets
  | .createSnapshotDir | .assetsAside => Promoted key sha256 src d₀ d ∧ d.assets = d₀.assets ∧
    d.stagedAssets.isSome = true
  | .removePromoted _ => Promoted key sha256 src d₀ d ∧ d.assets = d₀.assets
  | .assetsIn => Promoted key sha256 src d₀ d ∧ d.assets = none ∧ d.oldAssets = d₀.assets ∧
    d.stagedAssets.isSome = true
  | .assetsBack _ => Promoted key sha256 src d₀ d ∧ d.assets = none ∧ d.oldAssets = d₀.assets
  | .unretire todo _ => (∀ p, d.Part d₀ p ∧ (p ∉ todo → d.family p = d₀.family p)) ∧
    d.assets = d₀.assets ∧
      ∃ staged, Backup.stageAssetBlobs key sha256 src.image = .ok staged
  | .dropOldAssets | .dropRetired | .stat | .audit => Swapped key sha256 src d₀ d
  | .done _ => Restored key sha256 src auditRow d₀ d
  | .failed _ | .crashed => Whole key sha256 src auditRow d₀ d

end Inv

section Proof

variable {key : Aead} {sha256 : List UInt8 → String} {src : RestoreSource T} {force : Bool}
  {auditRow : T → T}
variable {d₀ d : RestoreDir T} {todo : List DbPart} {p : DbPart} {f : DbFile T} {e : Error}

theorem Untouched.whole (h : d.Untouched d₀) : Whole key sha256 src auditRow d₀ d :=
  .inl ⟨h.1, h.2.2⟩

theorem Swapped.restored (h : Swapped key sha256 src d₀ d) :
    Restored key sha256 src auditRow d₀ d := by
  refine ⟨?_, h.2⟩
  rw [h.1]
  exact ⟨.inl rfl, rfl, rfl⟩

/-- A file that was not moved, or that did not exist, is where it was. -/
theorem Part.of_not_retired (h : d.Part d₀ p) (hr : d.retired p = none) :
    d.family p = d₀.family p := by
  rcases h with ⟨hf, -⟩ | ⟨hf, hold⟩
  · exact hf
  · rw [hf, ← hold, hr]

theorem Untouched.part (h : d.Untouched d₀) (p : DbPart) : d.Part d₀ p :=
  .inl ⟨by rw [h.1], by rw [h.2.1]⟩

theorem family_of_parts (h : ∀ p, d.Part d₀ p) (hr : ¬ ∃ p, d.retired p ≠ none) :
    d.family = d₀.family := by
  funext p
  refine (h p).of_not_retired ?_
  by_contra hne
  exact hr ⟨p, hne⟩

/-- The next file of the old database is moved aside. -/
theorem retire_part (h : ∀ q, d.Part d₀ q ∧ (q ∉ p :: todo → d.family q = none))
    (hf : d.family p = some f) (q : DbPart) :
    (d.moveAside p f).Part d₀ q ∧ (q ∉ todo → (d.moveAside p f).family q = none) := by
  by_cases hq : q = p
  · subst hq
    have hold : d₀.family q = some f := by
      rcases (h q).1 with ⟨hsame, -⟩ | ⟨hnone, -⟩
      · rw [← hsame, hf]
      · rw [hf] at hnone
        cases hnone
    refine ⟨.inr ⟨Function.update_self .., ?_⟩, fun _ => Function.update_self ..⟩
    rw [hold]
    exact Function.update_self ..
  · have hfam : (d.moveAside p f).family q = d.family q := Function.update_of_ne hq ..
    have hret : (d.moveAside p f).retired q = d.retired q := Function.update_of_ne hq ..
    constructor
    · unfold Part
      rw [hfam, hret]
      exact (h q).1
    · intro hmem
      rw [hfam]
      exact (h q).2 (by simp [hq, hmem])

/-- The next file of the old database is moved back. -/
theorem unretire_part (h : ∀ q, d.Part d₀ q ∧ (q ∉ p :: todo → d.family q = d₀.family q))
    (hf : d.retired p = some f)
    (q : DbPart) : (d.moveBack p f).Part d₀ q ∧
    (q ∉ todo → (d.moveBack p f).family q = d₀.family q) := by
  by_cases hq : q = p
  · subst hq
    have hold : d₀.family q = some f := by
      rcases (h q).1 with ⟨-, hnone⟩ | ⟨-, hsome⟩
      · rw [hf] at hnone
        cases hnone
      · rw [← hsome, hf]
    have hback : (d.moveBack q f).family q = d₀.family q := by
      rw [hold]
      exact Function.update_self ..
    exact ⟨.inl ⟨hback, Function.update_self ..⟩, fun _ => hback⟩
  · have hfam : (d.moveBack p f).family q = d.family q := Function.update_of_ne hq ..
    have hret : (d.moveBack p f).retired q = d.retired q := Function.update_of_ne hq ..
    constructor
    · unfold Part
      rw [hfam, hret]
      exact (h q).1
    · intro hmem
      rw [hfam]
      exact (h q).2 (by simp [hq, hmem])

theorem skip_retire (h : ∀ q, d.Part d₀ q ∧ (q ∉ p :: todo → d.family q = none))
    (hf : d.family p = none) (q : DbPart) : d.Part d₀ q ∧ (q ∉ todo → d.family q = none) := by
  refine ⟨(h q).1, fun hmem => ?_⟩
  by_cases hq : q = p
  · rw [hq, hf]
  · exact (h q).2 (by simp [hq, hmem])

theorem skip_unretire (h : ∀ q, d.Part d₀ q ∧ (q ∉ p :: todo → d.family q = d₀.family q))
    (hf : d.retired p = none)
    (q : DbPart) : d.Part d₀ q ∧ (q ∉ todo → d.family q = d₀.family q) := by
  refine ⟨(h q).1, fun hmem => ?_⟩
  by_cases hq : q = p
  · subst hq
    exact (h q).1.of_not_retired hf
  · exact (h q).2 (by simp [hq, hmem])

theorem retired_all (h : ∀ q, d.Part d₀ q ∧ (q ∉ ([] : List DbPart) → d.family q = none))
    (q : DbPart) : d.family q = none ∧ d.retired q = d₀.family q := by
  have hnone : d.family q = none := (h q).2 List.not_mem_nil
  refine ⟨hnone, ?_⟩
  rcases (h q).1 with ⟨hsame, hret⟩ | ⟨-, hret⟩
  · exact hret.trans (hnone.symm.trans hsame)
  · exact hret

theorem unretire_start (h : ∀ q, d.Part d₀ q) (q : DbPart) :
    d.Part d₀ q ∧ (q ∉ unretireOrder → d.family q = d₀.family q) := by
  refine ⟨h q, fun hq => ?_⟩
  cases q <;> simp [unretireOrder] at hq

theorem stageAssetBlobs_none (h : src.image.assetBlobs = none) :
    Backup.stageAssetBlobs key sha256 src.image = .ok none := by
  rw [Backup.stageAssetBlobs, h]
  rfl

theorem stageAssetBlobs_some {rows : List BackupAssetRow} {dir : AssetFiles}
    (h : src.image.assetBlobs = some rows)
    (hdir : (Backup.stagingOrder rows).foldlM (Backup.stageAssetBlob key sha256 src.image.assets)
      (fun _ => none) = .ok dir) :
    Backup.stageAssetBlobs key sha256 src.image = .ok (some dir) := by
  rw [Backup.stageAssetBlobs, h]
  simp only [hdir]
  rfl

theorem restoredAssets_eq {staged old : Option AssetFiles}
    (h : Backup.stageAssetBlobs key sha256 src.image = .ok staged) :
    restoredAssets key sha256 src old = .ok (staged.or old) := by
  rw [restoredAssets, h]
  rfl

/-- Staging goes on with the next blob. -/
theorem StagedUpTo.next {r : BackupAssetRow} {rest : List BackupAssetRow} {dir : AssetFiles}
    (h : StagedUpTo key sha256 src (r :: rest) d)
    (hr : Backup.stageAssetBlob key sha256 src.image.assets (d.stagedAssets.getD fun _ => none) r =
      .ok dir) :
    StagedUpTo key sha256 src rest
    ({ d with stagedAssets := some dir }.goto (.stageBlob rest)) := by
  obtain ⟨rows, dir₀, before, hrows, horder, hbefore, hdir₀⟩ := h
  rw [hdir₀, Option.getD_some] at hr
  refine ⟨rows, dir, before ++ [r], hrows, by rw [horder, List.append_assoc]; rfl, ?_, rfl⟩
  rw [List.foldlM_append, hbefore]
  show (Backup.stageAssetBlob key sha256 src.image.assets dir₀ r >>= pure) = _
  rw [hr]
  rfl

theorem StagedUpTo.all (h : StagedUpTo key sha256 src [] d) :
    Backup.stageAssetBlobs key sha256 src.image = .ok d.stagedAssets := by
  obtain ⟨rows, dir, before, hrows, horder, hbefore, hdir⟩ := h
  rw [List.append_nil] at horder
  rw [hdir]
  exact stageAssetBlobs_some hrows (by rw [horder, hbefore])

theorem Inv.carryOut (h : Inv key sha256 src auditRow d₀ d) :
    Inv key sha256 src auditRow d₀ (d.carryOut key sha256 src force auditRow) := by
  unfold Inv at h
  unfold RestoreDir.carryOut
  cases hpc : d.pc with
  | check =>
    simp only [hpc] at h
    dsimp only [RestoreDir.check]
    split_ifs
    · exact h.1.whole
    · exact h.1.whole
    · exact h.1.whole
    · exact h.1.whole
    · exact h
  | removeStaging | copy | strip | createSnapshotDir =>
    simp only [hpc] at h
    exact h
  | createAssetStaging =>
    simp only [hpc] at h
    obtain ⟨hold, hnone⟩ := h
    cases hrows : src.image.assetBlobs with
    | none => exact ⟨hold, by rw [stageAssetBlobs_none hrows, ← hnone]; rfl⟩
    | some rows => exact ⟨hold, rows, _, [], hrows, rfl, rfl, rfl⟩
  | stageBlob rest =>
    simp only [hpc] at h
    obtain ⟨hold, hup⟩ := h
    cases rest with
    | nil => exact ⟨hold, hup.all⟩
    | cons r rest =>
      dsimp only
      cases hr :
        Backup.stageAssetBlob key sha256 src.image.assets (d.stagedAssets.getD fun _ => none) r with
      | ok dir => exact ⟨hold, hup.next hr⟩
      | error e => exact hold
  | discard e =>
    simp only [hpc] at h
    exact h.whole
  | fsync =>
    simp only [hpc] at h
    obtain ⟨hold, hstaged⟩ := h
    refine ⟨fun p => ⟨hold.part p, fun hp => ?_⟩, hold.2.2, hstaged⟩
    cases p <;> simp at hp
  | retire todo =>
    simp only [hpc] at h
    obtain ⟨hparts, hassets, hstaged⟩ := h
    cases todo with
    | nil => exact ⟨retired_all hparts, hassets, hstaged⟩
    | cons p todo =>
      dsimp only
      cases hf : d.family p with
      | none => exact ⟨skip_retire hparts hf, hassets, hstaged⟩
      | some f => exact ⟨retire_part hparts hf, hassets, hstaged⟩
  | promoteDb =>
    simp only [hpc] at h
    obtain ⟨hparts, hassets, hstaged⟩ := h
    have hfam : Function.update d.family .db (some (.database (Backup.stripAssetBlobs src.image))) =
        Function.update (fun _ => none)
        .db (some (.database (Backup.stripAssetBlobs src.image))) := by
      rw [show d.family = fun _ => none from funext fun p => (hparts p).1]
    have hret : d.retired = d₀.family := funext fun p => (hparts p).2
    dsimp only
    cases hst : d.stagedAssets with
    | none =>
      refine ⟨hfam, ?_⟩
      rw [restoredAssets_eq hstaged, hst]
      exact congrArg _ hassets.symm
    | some dir => exact ⟨⟨hfam, hret, by rw [hstaged, hst]; rfl⟩, hassets, rfl⟩
  | assetsAside =>
    simp only [hpc] at h
    obtain ⟨hprom, hassets, hsome⟩ := h
    exact ⟨hprom, rfl, hassets, hsome⟩
  | assetsIn =>
    simp only [hpc] at h
    obtain ⟨hprom, -, -, hsome⟩ := h
    obtain ⟨dir, hdir⟩ := Option.isSome_iff_exists.1 hsome
    have hor : d.stagedAssets.or d₀.assets = d.stagedAssets := by rw [hdir, Option.some_or]
    exact ⟨hprom.1, (restoredAssets_eq hprom.2.2).trans (congrArg Except.ok hor)⟩
  | assetsBack e =>
    simp only [hpc] at h
    obtain ⟨hprom, hnone, hold⟩ := h
    dsimp only
    cases ha : d.oldAssets with
    | none => exact ⟨hprom, by rw [← hold, ha]; exact hnone⟩
    | some a => exact ⟨hprom, by rw [← hold, ha]; rfl⟩
  | removePromoted e =>
    simp only [hpc] at h
    obtain ⟨hprom, hassets⟩ := h
    have hfam (p : DbPart) : Function.update d.family .db none p = none := by
      rw [hprom.1, Function.update_idem, Function.update_apply]
      split <;> rfl
    exact ⟨unretire_start fun p => .inr ⟨hfam p, congrFun hprom.2.1 p⟩, hassets, _, hprom.2.2⟩
  | unretire todo e =>
    simp only [hpc] at h
    obtain ⟨hparts, hassets, hstaged⟩ := h
    cases todo with
    | nil => exact .inl ⟨funext fun p => (hparts p).2 (by simp), hassets⟩
    | cons p todo =>
      dsimp only
      cases hf : d.retired p with
      | none => exact ⟨skip_unretire hparts hf, hassets, hstaged⟩
      | some f => exact ⟨unretire_part hparts hf, hassets, hstaged⟩
  | dropOldAssets | dropRetired | stat =>
    simp only [hpc] at h
    exact h
  | audit =>
    simp only [hpc] at h
    refine ⟨?_, h.2⟩
    dsimp only [RestoreDir.goto]
    rw [h.1]
    exact ⟨.inr rfl, rfl, rfl⟩
  | done _ | failed _ | crashed =>
    simp only [hpc] at h
    show Inv key sha256 src auditRow d₀ d
    unfold Inv
    simp only [hpc]
    exact h

theorem Inv.giveUp (h : Inv key sha256 src auditRow d₀ d) (hg : d.SwapGuard .err) :
    Inv key sha256 src auditRow d₀ d.giveUp := by
  unfold Inv at h
  unfold SwapGuard at hg
  unfold RestoreDir.giveUp
  cases hpc : d.pc with
  | check | copy | strip | createAssetStaging =>
    simp only [hpc] at h
    exact h.1.whole
  | removeStaging =>
    simp only [hpc] at h
    cases d.staging with
    | none => exact h
    | some _ => exact h.1.whole
  | stageBlob rest =>
    simp only [hpc] at h
    exact h.1
  | discard e =>
    simp only [hpc] at h
    exact h.whole
  | fsync =>
    simp only [hpc] at h
    exact h.1.whole
  | retire todo =>
    simp only [hpc] at h
    obtain ⟨hparts, hassets, hstaged⟩ := h
    cases todo with
    | nil => exact ⟨retired_all hparts, hassets, hstaged⟩
    | cons p todo =>
      dsimp only
      cases hf : d.family p with
      | none => exact ⟨skip_retire hparts hf, hassets, hstaged⟩
      | some f => exact ⟨unretire_start fun q => (hparts q).1, hassets, _, hstaged⟩
  | promoteDb =>
    simp only [hpc] at h
    obtain ⟨hparts, hassets, hstaged⟩ := h
    exact ⟨unretire_start fun p => .inr (hparts p), hassets, _, hstaged⟩
  | createSnapshotDir =>
    simp only [hpc] at h
    exact ⟨h.1, h.2.1⟩
  | assetsAside =>
    simp only [hpc] at h
    obtain ⟨hprom, hassets, hsome⟩ := h
    cases ha : d.assets with
    | none => exact ⟨hprom, rfl, ha.symm.trans hassets, hsome⟩
    | some a => exact ⟨hprom, hassets⟩
  | assetsIn =>
    simp only [hpc] at h
    obtain ⟨hprom, hnone, hold, -⟩ := h
    exact ⟨hprom, hnone, hold⟩
  | assetsBack e =>
    simp only [hpc] at h hg
    obtain ⟨hprom, hnone, hold⟩ := h
    exact ⟨hprom, by rw [← hold, hg]; exact hnone⟩
  | removePromoted e =>
    simp only [hpc] at hg
  | unretire todo e =>
    simp only [hpc] at h hg
    obtain ⟨hparts, hassets, hstaged⟩ := h
    cases todo with
    | nil => exact .inl ⟨funext fun p => (hparts p).2 (by simp), hassets⟩
    | cons p todo =>
      dsimp only at hg ⊢
      rw [hg]
      exact ⟨skip_unretire hparts hg, hassets, hstaged⟩
  | dropOldAssets | dropRetired =>
    simp only [hpc] at h
    exact h
  | stat | audit =>
    simp only [hpc] at h
    exact .inr h.restored
  | done _ | failed _ | crashed =>
    simp only [hpc] at h
    show Inv key sha256 src auditRow d₀ d
    unfold Inv
    simp only [hpc]
    exact h

theorem Inv.crash (h : Inv key sha256 src auditRow d₀ d) (hg : ¬ d.inSwap) :
    Inv key sha256 src auditRow d₀ (d.goto .crashed) := by
  show Whole key sha256 src auditRow d₀ d
  unfold Inv at h
  unfold inSwap at hg
  cases hpc : d.pc with
  | check | removeStaging | copy | strip | createAssetStaging | stageBlob _ | fsync =>
    simp only [hpc] at h
    exact h.1.whole
  | discard e =>
    simp only [hpc] at h
    exact h.whole
  | retire todo =>
    simp only [hpc] at h hg
    exact .inl ⟨family_of_parts (fun p => (h.1 p).1) hg, h.2.1⟩
  | promoteDb =>
    simp only [hpc] at h hg
    exact .inl ⟨family_of_parts (fun p => .inr (h.1 p)) hg, h.2.1⟩
  | unretire todo e =>
    simp only [hpc] at h hg
    exact .inl ⟨family_of_parts (fun p => (h.1 p).1) hg, h.2.1⟩
  | createSnapshotDir | assetsAside | assetsIn | assetsBack _ | removePromoted _ =>
    simp only [hpc, not_true_eq_false] at hg
  | dropOldAssets | dropRetired | stat | audit =>
    simp only [hpc] at h
    exact .inr h.restored
  | done _ =>
    simp only [hpc] at h
    exact .inr h
  | failed _ | crashed =>
    simp only [hpc] at h
    exact h

theorem Inv.step (h : Inv key sha256 src auditRow d₀ d) (ev : RestoreEvent) (hg : d.SwapGuard ev) :
    Inv key sha256 src auditRow d₀ (d.step key sha256 src force auditRow ev) := by
  cases ev with
  | ok => exact h.carryOut
  | err => exact h.giveUp hg
  | crash =>
    simp only [RestoreDir.step]
    split
    · exact h
    · exact h.crash hg

theorem Inv.allOrNothing (h : Inv key sha256 src auditRow d₀ d) :
    AllOrNothing key sha256 src auditRow d₀ d := by
  intro hstop
  unfold Inv at h
  unfold stopped at hstop
  cases hpc : d.pc with
  | done _ =>
    simp only [hpc] at h
    exact .inr h
  | failed _ | crashed =>
    simp only [hpc] at h
    exact h
  | _ => simp [hpc] at hstop

/-! ### Runs without a guard -/

/-- From here a restore does not return `Ok`. -/
def Lost (d : RestoreDir T) : Prop :=
  match d.pc with
  | .removePromoted _ | .unretire _ _ | .failed _ | .crashed => True
  | _ => False

theorem Lost.step (h : d.Lost) (ev : RestoreEvent) :
    (d.step key sha256 src force auditRow ev).Lost := by
  unfold Lost at h
  have hcrash : (if d.stopped then d else d.goto .crashed).Lost := by
    split
    · exact h
    · trivial
  cases ev with
  | crash => exact hcrash
  | ok =>
    simp only [RestoreDir.step]
    unfold RestoreDir.carryOut
    cases hpc : d.pc with
    | removePromoted e => trivial
    | unretire todo e =>
      cases todo with
      | nil => trivial
      | cons p todo =>
        dsimp only
        cases d.retired p with
        | none => trivial
        | some f => trivial
    | failed _ | crashed => exact h
    | _ => simp [hpc] at h
  | err =>
    simp only [RestoreDir.step]
    unfold RestoreDir.giveUp
    cases hpc : d.pc with
    | removePromoted e => trivial
    | unretire todo e =>
      cases todo with
      | nil => trivial
      | cons p todo =>
        dsimp only
        cases d.retired p with
        | none => trivial
        | some f => trivial
    | failed _ | crashed => exact h
    | _ => simp [hpc] at h

/-- A step outside the guard loses the restore. -/
theorem lost_of_not_guard {ev : RestoreEvent} (h : ¬ d.SwapGuard ev) :
    (d.step key sha256 src force auditRow ev).Lost := by
  cases ev with
  | ok => exact absurd trivial h
  | crash =>
    have hswap : d.inSwap := not_not.1 h
    simp only [RestoreDir.step]
    unfold inSwap at hswap
    unfold stopped
    cases hpc : d.pc with
    | done _ | failed _ | crashed => simp [hpc] at hswap
    | _ => trivial
  | err =>
    unfold SwapGuard at h
    simp only [RestoreDir.step]
    unfold RestoreDir.giveUp
    cases hpc : d.pc with
    | removePromoted e => trivial
    | assetsBack e => trivial
    | unretire todo e =>
      cases todo with
      | nil => trivial
      | cons p todo =>
        dsimp only
        cases d.retired p with
        | none => trivial
        | some f => trivial
    | _ => simp [hpc] at h

theorem Inv.step_or_lost (h : Inv key sha256 src auditRow d₀ d ∨ d.Lost) (ev : RestoreEvent) :
    Inv key sha256 src auditRow d₀ (d.step key sha256 src force auditRow ev) ∨
      (d.step key sha256 src force auditRow ev).Lost := by
  rcases h with h | h
  · by_cases hg : d.SwapGuard ev
    · exact .inl (h.step ev hg)
    · exact .inr (lost_of_not_guard hg)
  · exact .inr (h.step ev)

/-- With a bad asset in the backup no step leaves the guard. -/
theorem Inv.guard_of_error {e : Error} (h : Inv key sha256 src auditRow d₀ d)
    (herr : Backup.stageAssetBlobs key sha256 src.image = .error e) (ev : RestoreEvent) :
    d.SwapGuard ev := by
  have hno (staged : Option AssetFiles) : Backup.stageAssetBlobs key sha256 src.image ≠
      .ok staged := by
    rw [herr]
    simp
  unfold Inv at h
  unfold SwapGuard
  cases ev with
  | ok => trivial
  | crash =>
    unfold inSwap
    cases hpc : d.pc with
    | retire _ | promoteDb =>
      simp only [hpc] at h
      exact absurd h.2.2 (hno _)
    | createSnapshotDir | assetsAside | assetsIn | assetsBack _ | removePromoted _ =>
      simp only [hpc] at h
      exact absurd h.1.2.2 (hno _)
    | unretire _ _ =>
      simp only [hpc] at h
      obtain ⟨staged, hok⟩ := h.2.2
      exact absurd hok (hno _)
    | _ => exact id
  | err =>
    cases hpc : d.pc with
    | assetsBack _ | removePromoted _ =>
      simp only [hpc] at h
      exact absurd h.1.2.2 (hno _)
    | unretire _ _ =>
      simp only [hpc] at h
      obtain ⟨staged, hok⟩ := h.2.2
      exact absurd hok (hno _)
    | _ => trivial

theorem not_restored_of_error {e : Error}
    (herr : Backup.stageAssetBlobs key sha256 src.image = .error e) :
    ¬ Restored key sha256 src auditRow d₀ d := by
  rintro ⟨-, h⟩
  rw [restoredAssets, herr] at h
  cases h

/-- With a bad asset in the backup the live files stay. -/
theorem Inv.untouched_of_error {e : Error} (h : Inv key sha256 src auditRow d₀ d)
    (herr : Backup.stageAssetBlobs key sha256 src.image = .error e) :
    d.family = d₀.family ∧ d.assets = d₀.assets ∧ ∀ report, d.pc ≠ .done report := by
  have hno (staged : Option AssetFiles) : Backup.stageAssetBlobs key sha256 src.image ≠
      .ok staged := by
    rw [herr]
    simp
  unfold Inv at h
  cases hpc : d.pc with
  | check | removeStaging | copy | strip | createAssetStaging | stageBlob _ =>
    simp only [hpc] at h
    exact ⟨h.1.1, h.1.2.2, by simp⟩
  | discard e =>
    simp only [hpc] at h
    exact ⟨h.1, h.2.2, by simp⟩
  | fsync =>
    simp only [hpc] at h
    exact absurd h.2 (hno _)
  | retire _ | promoteDb =>
    simp only [hpc] at h
    exact absurd h.2.2 (hno _)
  | createSnapshotDir | assetsAside | assetsIn | assetsBack _ | removePromoted _ =>
    simp only [hpc] at h
    exact absurd h.1.2.2 (hno _)
  | unretire _ _ =>
    simp only [hpc] at h
    obtain ⟨staged, hok⟩ := h.2.2
    exact absurd hok (hno _)
  | dropOldAssets | dropRetired | stat | audit =>
    simp only [hpc] at h
    exact absurd (h.restored : Restored key sha256 src auditRow d₀ d) (not_restored_of_error herr)
  | done _ =>
    simp only [hpc] at h
    exact absurd h (not_restored_of_error herr)
  | failed _ | crashed =>
    simp only [hpc] at h
    rcases h with ⟨hf, ha⟩ | h
    · exact ⟨hf, ha, by simp⟩
    · exact absurd h (not_restored_of_error herr)

theorem carryOut_hnsw (d : RestoreDir T) : (d.carryOut key sha256 src force auditRow).hnsw =
    d.hnsw := by
  unfold RestoreDir.carryOut check
  repeat' split
  all_goals rfl

theorem giveUp_hnsw (d : RestoreDir T) : d.giveUp.hnsw = d.hnsw := by
  unfold RestoreDir.giveUp
  repeat' split
  all_goals rfl

/-- A restore does not touch the snapshots of the vector index. -/
theorem step_hnsw (d : RestoreDir T) (ev : RestoreEvent) :
    (d.step key sha256 src force auditRow ev).hnsw = d.hnsw := by
  cases ev with
  | ok => exact carryOut_hnsw d
  | err => exact giveUp_hnsw d
  | crash =>
    simp only [RestoreDir.step]
    split <;> rfl

theorem inv_start (family : DbFamily T) (assets : Option AssetFiles)
    (staging : Option (StagingFile T)) (hnsw : Dir HnswDump) :
    Inv key sha256 src auditRow (start family assets staging hnsw)
    (start family assets staging hnsw) :=
  ⟨⟨rfl, rfl, rfl⟩, rfl⟩

theorem run_hnsw (d : RestoreDir T) (es : List RestoreEvent) :
    (Run.run (step key sha256 src force auditRow) d es).hnsw = d.hnsw := by
  induction es generalizing d with
  | nil => rfl
  | cons ev es ih => exact (ih _).trans (step_hnsw d ev)

/-- A restore that returns `Ok` has restored both, whatever failed on the way. -/
theorem restored_of_done {family : DbFamily T} {assets : Option AssetFiles}
    {staging : Option (StagingFile T)}
    {hnsw : Dir HnswDump} {es : List RestoreEvent} {report : RestoreReport}
    (hdone : (Run.run (step key sha256 src force auditRow) (start family assets staging hnsw)
      es).pc = .done report) :
    Restored key sha256 src auditRow (start family assets staging hnsw)
      (Run.run (step key sha256 src force auditRow) (start family assets staging hnsw) es) := by
  have hinv : Inv key sha256 src auditRow (start family assets staging hnsw)
      (Run.run (step key sha256 src force auditRow) (start family assets staging hnsw) es) ∨
      (Run.run (step key sha256 src force auditRow) (start family assets staging hnsw) es).Lost :=
    Run.invariant (fun d => Inv key sha256 src auditRow (start family assets staging hnsw) d ∨
      d.Lost)
    (fun _ ev h => Inv.step_or_lost h ev) (.inl (inv_start family assets staging hnsw))
  rcases hinv with h | h
  · unfold Inv at h
    simp only [hdone] at h
    exact h
  · unfold Lost at h
    simp only [hdone] at h

/-- With a bad asset in the backup no run touches a live file, or returns `Ok`. -/
theorem untouched_of_badAsset {e : Error}
    (herr : Backup.stageAssetBlobs key sha256 src.image = .error e)
    (family : DbFamily T) (assets : Option AssetFiles) (staging : Option (StagingFile T))
    (hnsw : Dir HnswDump) (es : List RestoreEvent) :
    (Run.run (step key sha256 src force auditRow) (start family assets staging hnsw) es).family =
    family ∧
    (Run.run (step key sha256 src force auditRow) (start family assets staging hnsw) es).assets =
    assets ∧
    ∀ report, (Run.run (step key sha256 src force auditRow) (start family assets staging hnsw)
      es).pc ≠ .done report := by
  have hinv : Inv key sha256 src auditRow (start family assets staging hnsw)
      (Run.run (step key sha256 src force auditRow) (start family assets staging hnsw) es) :=
    Run.invariant (Inv key sha256 src auditRow (start family assets staging hnsw))
    (fun _ ev h => h.step ev (h.guard_of_error herr ev)) (inv_start family assets staging hnsw)
  exact hinv.untouched_of_error herr

end Proof

end RestoreDir

open RestoreDir

/-- In every run of a restore without a crash in the swap, whatever operations fail. -/
theorem restore_allOrNothing {T : Type} (key : Aead) (sha256 : List UInt8 → String)
    (src : RestoreSource T) (force : Bool)
    (auditRow : T → T) (family : DbFamily T) (assets : Option AssetFiles)
    (staging : Option (StagingFile T)) (hnsw : Dir HnswDump) (es : List RestoreEvent)
    (hg : Run.Guarded (step key sha256 src force auditRow)
      SwapGuard (start family assets staging hnsw) es) :
    Run.Always (step key sha256 src force auditRow)
      (AllOrNothing key sha256 src auditRow (start family assets staging hnsw))
      (start family assets staging hnsw) es :=
  hg.always (Inv key sha256 src auditRow (start family assets staging hnsw))
    (fun _ ev h hc => h.step ev hc)
    (fun _ h => h.allOrNothing) (inv_start family assets staging hnsw)

namespace SmallRestore

/-- A backup without assets; `tables` says whose tables they are. -/
def source : RestoreSource String := ⟨true, true, "ok", ⟨"backup", none, none⟩⟩

/-- A live database with a `-wal` file. -/
def family : DbFamily String
  | .db => some (.database ⟨"live", none, none⟩)
  | .wal => some (.log [0x37])
  | .shm => none

def begin : RestoreDir String := start family none none .empty

def step : RestoreDir String → RestoreEvent → RestoreDir String :=
  RestoreDir.step HiAsset.key HiAsset.sha256 source true fun _ => "audited"

/-- The process dies when `solo.db` has been moved aside. -/
def crashBeforePromote : List RestoreEvent := List.replicate 7 .ok ++ [.crash]

/-- The rename of the staged database fails, and the old files are moved back. -/
def rolledBack : List RestoreEvent := List.replicate 10 .ok ++ [.err] ++ List.replicate 4 .ok

theorem rolledBack_guarded : Run.Guarded step SwapGuard begin rolledBack :=
  ⟨trivial, trivial, trivial, trivial, trivial, trivial, trivial, trivial, trivial, trivial,
    trivial, trivial, trivial, trivial, trivial, trivial⟩

end SmallRestore

open SmallRestore

theorem restore_allOrNothing_rolledBack :
    Run.Always SmallRestore.step
    (AllOrNothing HiAsset.key HiAsset.sha256 source (fun _ => "audited") begin) begin rolledBack :=
  restore_allOrNothing HiAsset.key HiAsset.sha256 source true (fun _ => "audited")
    SmallRestore.family none none .empty rolledBack rolledBack_guarded

/-- There is no live database at all. -/
theorem crashBeforePromote_not_allOrNothing :
    ¬ Run.Always SmallRestore.step
    (AllOrNothing HiAsset.key HiAsset.sha256 source (fun _ => "audited") begin) begin
      crashBeforePromote := by
  intro h
  have hdb : (Run.run SmallRestore.step begin crashBeforePromote).family .db = none := by rfl
  rcases h.last rfl with ⟨hold, -⟩ | ⟨⟨hnew | hnew, -⟩, -⟩
  · rw [hold] at hdb
    cases hdb
  · rw [hdb] at hnew
    cases hnew
  · rw [hdb] at hnew
    cases hnew

end Solo
