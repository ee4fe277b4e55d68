import Mathlib.Data.List.Nodup
import Mathlib.Data.String.Basic
import Solo.Steward.Cluster

/-!
# Which existing cluster absorbs (`absorb_into_existing`)

The documented target of a new cluster is, among the existing clusters with room that reach the
threshold, the one with the most episodes, of equals the one with the smallest id. The scan instead
raises its bound to the similarity of its running best, and so passes over a target that is less
similar than a cluster it met before. A run is the documented one, in every order of the existing
clusters, exactly when no cluster that could absorb is more similar than the documented target.
-/

namespace Solo

/-- The entries of a new cluster's centroid. -/
def Cluster.view (n : Cluster) : Option (List Float32) :=
  (n.centroid.bind Embedding.asF32Slice).map toFloats

/-- The working copy that a summary starts as. -/
def ExistingClusterSummary.working (s : ExistingClusterSummary) : WorkingCluster :=
  ⟨s.clusterId, (s.centroid.asF32Slice.map toFloats).getD [], s.coherence, s.episodeCount⟩

/-- The plan's entry for a new cluster that `w` takes in. -/
def WorkingCluster.absorbed (dim : Nat) (w : WorkingCluster) (n : Cluster) (view : List Float32) :
    AbsorbedCluster :=
  ⟨n.clusterId, w.clusterId, ⟨.f32, dim, ofFloats (w.absorb dim n view).centroid⟩,
    (w.absorb dim n view).coherence, n.episodeIds⟩

/-- The working clusters after the one of this id changed. -/
def replaceById (w' : WorkingCluster) (working : List WorkingCluster) : List WorkingCluster :=
  working.map fun u => if u.clusterId = w'.clusterId then w' else u

section Target

variable (cosine : List Float32 → List Float32 → Float32) (cfg : StewardConfig)

/-- An existing cluster with room that reaches the threshold. -/
def Eligible (view : List Float32) (size : Nat) (w : WorkingCluster) : Prop :=
  w.count + size ≤ cfg.maxSize ∧ cfg.clusterCosineThreshold ≤ cosine view w.centroid

/-- More episodes, or as many and the smaller id. -/
def Preferred (w u : WorkingCluster) : Prop :=
  u.count < w.count ∨ w.count = u.count ∧ w.clusterId < u.clusterId

/-- The documented target. -/
def IsTarget (view : List Float32) (size : Nat) (working : List WorkingCluster)
    (w : WorkingCluster) : Prop :=
  (w ∈ working ∧ Eligible cosine cfg view size w) ∧
    ∀ u ∈ working, Eligible cosine cfg view size u → u.clusterId ≠ w.clusterId → Preferred w u

/-- The documented plan: each new cluster in turn goes to its target, if there is one. -/
inductive Documented (dim : Nat) : List WorkingCluster → List Cluster → List AbsorbedCluster → Prop
  | done (working : List WorkingCluster) : Documented dim working [] []
  | pass {working : List WorkingCluster} {n : Cluster} {news : List Cluster} {plan :
    List AbsorbedCluster}
      (hnone : ∀ view, n.view = some view →
        ∀ w ∈ working, ¬ Eligible cosine cfg view n.episodeIds.length w)
      (hrest : Documented dim working news plan) : Documented dim working (n :: news) plan
  | absorb {working : List WorkingCluster} {n : Cluster} {news : List Cluster} {plan :
    List AbsorbedCluster}
      {view : List Float32} {w : WorkingCluster} (hview : n.view = some view)
      (htarget : IsTarget cosine cfg view n.episodeIds.length working w)
      (hrest : Documented dim (replaceById (w.absorb dim n view) working) news plan) :
      Documented dim working (n :: news) (w.absorbed dim n view :: plan)

/-- At each new cluster, as the documented absorptions before it left the existing ones, none of
those that could absorb it is more similar to it than its target. -/
def Unrivalled (dim : Nat) : List WorkingCluster → List Cluster → Prop
  | _, [] => True
  | working, n :: news => ∀ view, n.view = some view →
    ((∀ w ∈ working, ¬ Eligible cosine cfg view n.episodeIds.length w) →
      Unrivalled dim working news) ∧ ∀ w, IsTarget cosine cfg view n.episodeIds.length working w →
        (∀ u ∈ working, Eligible cosine cfg view n.episodeIds.length u →
          cosine view u.centroid ≤ cosine view w.centroid) ∧
        Unrivalled dim (replaceById (w.absorb dim n view) working) news

end Target

/-! ### The scan -/

section Scan

variable {cosine : List Float32 → List Float32 → Float32} {cfg : StewardConfig}
  {view : List Float32} {size : Nat} {working : List WorkingCluster}

/-- Whether the scan takes `w` over its running best. -/
def takes (best : Option (Nat × WorkingCluster)) (w : WorkingCluster) : Bool :=
  match best with
  | none => true
  | some (_, prev) => prev.count < w.count || (w.count = prev.count && w.clusterId < prev.clusterId)

/-- One turn of the selection loop. -/
def scanStep (cosine : List Float32 → List Float32 → Float32) (cfg : StewardConfig)
    (view : List Float32) (size : Nat)
    (st : Option (Nat × WorkingCluster) × Float32) (x : WorkingCluster × Nat) :
    Option (Nat × WorkingCluster) × Float32 :=
  if cfg.maxSize < x.1.count + size then st
  else if st.2 ≤ cosine view x.1.centroid &&
    takes st.1 x.1 then (some (x.2, x.1), cosine view x.1.centroid)
  else st

theorem bestExisting_eq : bestExisting cosine cfg view size working =
    (working.zipIdx.foldl (scanStep cosine cfg view size) (none, cfg.clusterCosineThreshold)).1 :=
    rfl

theorem takes_some {i : Nat} {prev w : WorkingCluster} : takes (some (i, prev)) w = true ↔
    Preferred w prev := by
  simp only [takes, Preferred, Bool.or_eq_true, Bool.and_eq_true, decide_eq_true_eq]

theorem scanStep_of_takes {best : Option (Nat × WorkingCluster)} {bound : Float32}
    {x : WorkingCluster × Nat}
    (hroom : x.1.count + size ≤ cfg.maxSize) (hsim : bound ≤ cosine view x.1.centroid)
    (htake : takes best x.1 = true) :
    scanStep cosine cfg view size (best, bound) x =
    (some (x.2, x.1), cosine view x.1.centroid) := by
  unfold scanStep
  rw [if_neg (Nat.not_lt.2 hroom), if_pos (by simp [hsim, htake])]

/-- A turn keeps its state, or takes an element it may take. -/
theorem scanStep_cases (best : Option (Nat × WorkingCluster)) (bound : Float32)
    (x : WorkingCluster × Nat) : scanStep cosine cfg view size (best, bound) x = (best, bound) ∨
      x.1.count + size ≤ cfg.maxSize ∧ bound ≤ cosine view x.1.centroid ∧ takes best x.1 = true ∧
        scanStep cosine cfg view size (best, bound) x =
        (some (x.2, x.1), cosine view x.1.centroid) := by
  by_cases hroom : x.1.count + size ≤ cfg.maxSize
  · by_cases htake : bound ≤ cosine view x.1.centroid ∧ takes best x.1 = true
    · exact .inr ⟨hroom, htake.1, htake.2, scanStep_of_takes hroom htake.1 htake.2⟩
    · refine .inl ?_
      unfold scanStep
      rw [if_neg (Nat.not_lt.2 hroom), if_neg (by simpa using htake)]
  · refine .inl ?_
    unfold scanStep
    rw [if_pos (Nat.lt_of_not_le hroom)]

/-- What the scan has found in the elements so far. -/
def Scanned (cosine : List Float32 → List Float32 → Float32) (cfg : StewardConfig)
    (view : List Float32) (size : Nat)
    (l : List (WorkingCluster × Nat)) (st : Option (Nat × WorkingCluster) × Float32) : Prop :=
  (st = (none, cfg.clusterCosineThreshold) ∧ ∀ x ∈ l, ¬ Eligible cosine cfg view size x.1) ∨
    ∃ x ∈ l, st = (some (x.2, x.1), cosine view x.1.centroid) ∧ Eligible cosine cfg view size x.1

theorem Scanned.step {l : List (WorkingCluster × Nat)} {best : Option (Nat × WorkingCluster)}
    {bound : Float32}
    (h : Scanned cosine cfg view size l (best, bound)) (x : WorkingCluster × Nat) :
    Scanned cosine cfg view size (l ++ [x]) (scanStep cosine cfg view size (best, bound) x) := by
  rcases scanStep_cases best bound x with hkeep | ⟨hroom, hsim, -, hstep⟩
  · rw [hkeep]
    rcases h with ⟨hst, hnone⟩ | ⟨y, hy, hst, hyel⟩
    · refine .inl ⟨hst, fun y hy => ?_⟩
      rcases List.mem_append.1 hy with hy | hy
      · exact hnone y hy
      · obtain rfl := List.mem_singleton.1 hy
        obtain ⟨rfl, rfl⟩ := Prod.mk.inj hst
        intro hel
        have htaken : scanStep cosine cfg view size (none, cfg.clusterCosineThreshold) y = _ :=
          scanStep_of_takes hel.1 hel.2 rfl
        exact Option.some_ne_none _ (congrArg Prod.fst (htaken.symm.trans hkeep))
    · exact .inr ⟨y, List.mem_append_left _ hy, hst, hyel⟩
  · rw [hstep]
    refine .inr ⟨x, List.mem_append_right _ (List.mem_singleton_self x), rfl, hroom, ?_⟩
    rcases h with ⟨hst, -⟩ | ⟨y, -, hst, hyel⟩
    · rw [← (Prod.mk.inj hst).2]
      exact hsim
    · rw [(Prod.mk.inj hst).2] at hsim
      exact Binary32.le_trans hyel.2 hsim

theorem scanned_foldl (cosine : List Float32 → List Float32 → Float32) (cfg : StewardConfig)
    (view : List Float32)
    (size : Nat) (l : List (WorkingCluster × Nat)) : Scanned cosine cfg view size l
    (l.foldl (scanStep cosine cfg view size) (none, cfg.clusterCosineThreshold)) := by
  induction l using List.reverseRecOn with
  | nil => exact .inl ⟨rfl, fun x hx => absurd hx List.not_mem_nil⟩
  | append_singleton l x ih =>
    rw [List.foldl_append]
    exact ih.step x

/-- The bound of the scan only grows. -/
theorem bound_le_foldl {l : List (WorkingCluster × Nat)} {best : Option (Nat × WorkingCluster)}
    {bound : Float32}
    (hself : bound ≤ bound) :
    bound ≤ (l.foldl (scanStep cosine cfg view size) (best, bound)).2 := by
  induction l generalizing best bound with
  | nil => exact hself
  | cons x l ih =>
    rw [List.foldl_cons]
    rcases scanStep_cases best bound x with hkeep | ⟨-, hsim, -, hstep⟩
    · rw [hkeep]
      exact ih hself
    · rw [hstep]
      exact Binary32.le_trans hsim (ih (Binary32.le_self_of_le hsim))

/-- The target is never replaced. -/
theorem foldl_of_target {l : List (WorkingCluster × Nat)} {k : Nat} {w : WorkingCluster}
    (hw : Eligible cosine cfg view size w)
    (hbest : ∀ x ∈ l, Eligible cosine cfg view size x.1 → Preferred w x.1) :
    l.foldl (scanStep cosine cfg view size) (some (k, w), cosine view w.centroid) =
      (some (k, w), cosine view w.centroid) := by
  induction l with
  | nil => rfl
  | cons x l ih =>
    have hrest := ih fun y hy => hbest y (List.mem_cons_of_mem _ hy)
    rw [List.foldl_cons]
    rcases scanStep_cases (some (k, w)) (cosine view w.centroid)
      x with hkeep | ⟨hroom, hsim, htake, -⟩
    · rw [hkeep]
      exact hrest
    · have hpref := hbest x List.mem_cons_self ⟨hroom, Binary32.le_trans hw.2 hsim⟩
      have hpref' := takes_some.1 htake
      exfalso
      rcases hpref with hlt | ⟨heq, hlt⟩ <;> rcases hpref' with hlt' | ⟨heq', hlt'⟩
      · omega
      · omega
      · omega
      · exact lt_asymm hlt hlt'

/-- The scan finds nothing exactly when nothing is eligible. -/
theorem bestExisting_eq_none :
    bestExisting cosine cfg view size working = none ↔
    ∀ w ∈ working, ¬ Eligible cosine cfg view size w := by
  rw [bestExisting_eq]
  have hmem : ∀ w, w ∈ working ↔ ∃ x ∈ working.zipIdx, x.1 = w := by
    intro w
    rw [← List.mem_map, List.zipIdx_map_fst]
  rcases scanned_foldl cosine cfg view size working.zipIdx with
    ⟨heq, hnone⟩ | ⟨x, hx, heq, hel⟩
  · refine iff_of_true (congrArg Prod.fst heq) fun w hw => ?_
    obtain ⟨x, hx, rfl⟩ := (hmem w).1 hw
    exact hnone x hx
  · refine iff_of_false (fun hnil => ?_) fun hall => hall x.1 ((hmem _).2 ⟨x, hx, rfl⟩) hel
    rw [heq] at hnil
    exact Option.some_ne_none _ hnil

/-- What the scan finds is eligible, at its position. -/
theorem bestExisting_eq_some {i : Nat} {w : WorkingCluster}
    (h : bestExisting cosine cfg view size working = some (i, w)) :
    working[i]? = some w ∧ Eligible cosine cfg view size w := by
  rw [bestExisting_eq] at h
  rcases scanned_foldl cosine cfg view size working.zipIdx with
    ⟨heq, -⟩ | ⟨x, hx, heq, hel⟩
  · rw [heq] at h
    exact absurd h.symm (Option.some_ne_none _)
  · rw [heq] at h
    obtain ⟨rfl, rfl⟩ := Prod.mk.inj (Option.some.inj h)
    exact ⟨List.mk_mem_zipIdx_iff_getElem?.1 hx, hel⟩

/-- The scan finds the target when nothing eligible is more similar. -/
theorem bestExisting_of_target (hids : (working.map (·.clusterId)).Nodup) {w : WorkingCluster}
    (hw : IsTarget cosine cfg view size working w)
    (hsim : ∀ u ∈ working, Eligible cosine cfg view size u →
      cosine view u.centroid ≤ cosine view w.centroid) :
    ∃ i, bestExisting cosine cfg view size working = some (i, w) := by
  obtain ⟨⟨hmem, hel⟩, hbest⟩ := hw
  obtain ⟨before, after, rfl⟩ := List.append_of_mem hmem
  rw [List.map_append, List.map_cons, List.nodup_append, List.nodup_cons] at hids
  obtain ⟨-, ⟨hafter, -⟩, hdisj⟩ := hids
  have hne : ∀ u, u ∈ before ∨ u ∈ after → u.clusterId ≠ w.clusterId := by
    rintro u (hu | hu) heq
    · exact hdisj _ (List.mem_map_of_mem hu) _ List.mem_cons_self heq
    · exact hafter (heq ▸ List.mem_map_of_mem hu)
  refine ⟨before.length, ?_⟩
  rw [bestExisting_eq, List.zipIdx_append, List.zipIdx_cons, List.foldl_append, List.foldl_cons]
  have hturn : scanStep cosine cfg view size
      (before.zipIdx.foldl (scanStep cosine cfg view size) (none, cfg.clusterCosineThreshold))
      (w, 0 + before.length) = (some (0 + before.length, w), cosine view w.centroid) := by
    rcases scanned_foldl cosine cfg view size before.zipIdx with
      ⟨heq, -⟩ | ⟨x, hx, heq, hxel⟩
    · rw [heq]
      exact scanStep_of_takes hel.1 hel.2 rfl
    · have hx' := List.fst_mem_of_mem_zipIdx hx
      rw [heq]
      refine scanStep_of_takes hel.1 (hsim _ (List.mem_append_left _ hx') hxel) (takes_some.2 ?_)
      exact hbest _ (List.mem_append_left _ hx') hxel (hne _ (.inl hx'))
  rw [hturn, foldl_of_target hel, Nat.zero_add]
  intro x hx hxel
  have hx' := List.fst_mem_of_mem_zipIdx hx
  exact hbest _ (List.mem_append_right _ (List.mem_cons_of_mem _ hx')) hxel (hne _ (.inr hx'))

/-- What comes first and is eligible sets a bound for what is found. -/
theorem sim_le_of_first {u w : WorkingCluster} {i : Nat} (hu : Eligible cosine cfg view size u)
    (h : bestExisting cosine cfg view size (u :: working) = some (i, w)) :
    cosine view u.centroid ≤ cosine view w.centroid := by
  have hscan := scanned_foldl cosine cfg view size (u :: working).zipIdx
  have hfirst : scanStep cosine cfg view size (none, cfg.clusterCosineThreshold) (u, 0) =
      (some (0, u), cosine view u.centroid) := scanStep_of_takes hu.1 hu.2 rfl
  rw [bestExisting_eq] at h
  rw [List.zipIdx_cons, List.foldl_cons, hfirst] at h hscan
  have hbound :
      cosine view u.centroid ≤ ((working.zipIdx (0 + 1)).foldl (scanStep cosine cfg view size)
      (some (0, u), cosine view u.centroid)).2 :=
    bound_le_foldl (Binary32.le_self_of_le hu.2)
  rcases hscan with ⟨heq, -⟩ | ⟨x, -, heq, -⟩
  · rw [heq] at h
    exact absurd h.symm (Option.some_ne_none _)
  · rw [heq] at h hbound
    obtain ⟨-, rfl⟩ := Prod.mk.inj (Option.some.inj h)
    exact hbound

theorem Preferred.trans {u v w : WorkingCluster} (huv : Preferred u v) (hvw : Preferred v w) :
    Preferred u w := by
  rcases huv with hlt | ⟨heq, hlt⟩ <;> rcases hvw with hlt' | ⟨heq', hlt'⟩
  · exact .inl (by omega)
  · exact .inl (by omega)
  · exact .inl (by omega)
  · exact .inr ⟨heq.trans heq', lt_trans hlt hlt'⟩

theorem preferred_total {u w : WorkingCluster} (hne : u.clusterId ≠ w.clusterId) : Preferred u w ∨
    Preferred w u := by
  rcases Nat.lt_trichotomy u.count w.count with hlt | heq | hgt
  · exact .inr (.inl hlt)
  · rcases lt_or_gt_of_ne hne with hlt | hgt
    · exact .inl (.inr ⟨heq, hlt⟩)
    · exact .inr (.inr ⟨heq.symm, hgt⟩)
  · exact .inl (.inl hgt)

/-- Where something is eligible there is a target. -/
theorem exists_target (hids : (working.map (·.clusterId)).Nodup)
    (h : ∃ w ∈ working, Eligible cosine cfg view size w) :
    ∃ w, IsTarget cosine cfg view size working w := by
  induction working with
  | nil =>
    obtain ⟨w, hw, -⟩ := h
    cases hw
  | cons a working ih =>
    obtain ⟨-, hids'⟩ := List.nodup_cons.1 hids
    by_cases hrest : ∃ u ∈ working, Eligible cosine cfg view size u
    · obtain ⟨m, ⟨hm, hmel⟩, hbest⟩ := ih hids' hrest
      by_cases ha : Eligible cosine cfg view size a ∧ a.clusterId ≠ m.clusterId ∧ Preferred a m
      · refine ⟨a, ⟨List.mem_cons_self, ha.1⟩, fun u hu huel hne => ?_⟩
        rcases List.mem_cons.1 hu with rfl | hu
        · exact absurd rfl hne
        · by_cases hum : u.clusterId = m.clusterId
          · exact List.inj_on_of_nodup_map hids' hu hm hum ▸ ha.2.2
          · exact ha.2.2.trans (hbest u hu huel hum)
      · refine ⟨m, ⟨List.mem_cons_of_mem _ hm, hmel⟩, fun u hu huel hne => ?_⟩
        rcases List.mem_cons.1 hu with rfl | hu
        · exact (preferred_total hne).resolve_left fun hpref => ha ⟨huel, hne, hpref⟩
        · exact hbest u hu huel hne
    · obtain ⟨w, hw, hel⟩ := h
      refine ⟨w, ⟨hw, hel⟩, fun u hu huel hne => ?_⟩
      rcases List.mem_cons.1 hw with rfl | hw
      · rcases List.mem_cons.1 hu with rfl | hu
        · exact absurd rfl hne
        · exact absurd ⟨u, hu, huel⟩ hrest
      · exact absurd ⟨w, hw, hel⟩ hrest

end Scan

/-! ### Replacing by id -/

section Replace

variable {working working' : List WorkingCluster} {w w' : WorkingCluster}

theorem map_clusterId_replaceById :
    (replaceById w' working).map (·.clusterId) = working.map (·.clusterId) := by
  rw [replaceById, List.map_map]
  refine List.map_congr_left fun u _ => ?_
  rw [Function.comp_apply]
  split
  next heq => exact heq.symm
  · rfl

theorem set_eq_replaceById (hids : (working.map (·.clusterId)).Nodup) {i : Nat}
    (hi : working[i]? = some w)
    (hw' : w'.clusterId = w.clusterId) : working.set i w' = replaceById w' working := by
  obtain ⟨hlt, hget⟩ := List.getElem?_eq_some_iff.1 hi
  refine List.ext_getElem (by rw [replaceById, List.length_set, List.length_map]) fun j hj _ => ?_
  rw [List.length_set] at hj
  rw [List.getElem_set]
  simp only [replaceById, List.getElem_map]
  by_cases hij : i = j
  · subst hij
    rw [if_pos rfl, if_pos (by rw [hget, hw'])]
  · have hne : working[j].clusterId ≠ w'.clusterId := by
      intro heq
      have hsame : working[j] = working[i] := by
        refine List.inj_on_of_nodup_map hids (List.getElem_mem hj) (List.getElem_mem hlt) ?_
        rw [heq, hget, hw']
      exact hij ((List.Nodup.of_map _ hids).getElem_inj_iff.1 hsame).symm
    rw [if_neg hij, if_neg hne]

theorem replaceById_perm (h : working.Perm working') :
    (replaceById w' working).Perm (replaceById w' working') := h.map _

/-- Replacing back. -/
theorem replaceById_replaceById (hids : (working.map (·.clusterId)).Nodup) (hw : w ∈ working)
    (hw' : w'.clusterId = w.clusterId) : replaceById w (replaceById w' working) = working := by
  rw [replaceById, replaceById, List.map_map]
  conv_rhs => rw [← List.map_id working]
  refine List.map_congr_left fun u hu => ?_
  rw [Function.comp_apply, id_eq]
  by_cases heq : u.clusterId = w'.clusterId
  · rw [if_pos heq, if_pos hw']
    exact List.inj_on_of_nodup_map hids hw hu (hw'.symm.trans heq.symm)
  · rw [if_neg heq, if_neg (hw' ▸ heq)]

end Replace

/-- A reordered image is the image of a reordered list. -/
theorem exists_map_eq_of_perm {α β : Type} {f : α → β} {l : List α} {k : List β}
    (h : (l.map f).Perm k) : ∃ l', l.Perm l' ∧ l'.map f = k := by
  generalize hm : l.map f = m at h
  induction h generalizing l with
  | nil => exact ⟨l, .refl l, hm⟩
  | cons x _ ih =>
    obtain ⟨a, l, rfl, rfl, hl⟩ := List.map_eq_cons_iff.1 hm
    obtain ⟨l', hperm, rfl⟩ := ih hl
    exact ⟨a :: l', hperm.cons a, rfl⟩
  | swap x y m =>
    obtain ⟨a, l, rfl, rfl, hl⟩ := List.map_eq_cons_iff.1 hm
    obtain ⟨b, l, rfl, rfl, rfl⟩ := List.map_eq_cons_iff.1 hl
    exact ⟨b :: a :: l, .swap b a l, rfl⟩
  | trans _ _ ih ih' =>
    obtain ⟨l', hperm, hl'⟩ := ih hm
    obtain ⟨l'', hperm', hl''⟩ := ih' hl'
    exact ⟨l'', hperm.trans hperm', hl''⟩

/-! ### Runs over the new clusters -/

section Runs

variable {cosine : List Float32 → List Float32 → Float32} {cfg : StewardConfig} {dim : Nat}
  {working working' : List WorkingCluster} {news : List Cluster} {plan : List AbsorbedCluster}

/-- The runs of the loop over the new clusters that succeed. -/
inductive AbsorbRun (cosine : List Float32 → List Float32 → Float32) (cfg : StewardConfig)
    (dim : Nat) : List WorkingCluster → List Cluster → List AbsorbedCluster → Prop
  | done (working : List WorkingCluster) : AbsorbRun cosine cfg dim working [] []
  | pass {working : List WorkingCluster} {n : Cluster} {news : List Cluster} {plan :
    List AbsorbedCluster}
      {view : List Float32} (hview : n.view = some view)
      (hbest : bestExisting cosine cfg view n.episodeIds.length working = none)
      (hrest : AbsorbRun cosine cfg dim working news plan) :
      AbsorbRun cosine cfg dim working (n :: news) plan
  | absorb {working : List WorkingCluster} {n : Cluster} {news : List Cluster} {plan :
    List AbsorbedCluster}
      {view : List Float32} {i : Nat} {w : WorkingCluster} (hview : n.view = some view)
      (hbest : bestExisting cosine cfg view n.episodeIds.length working = some (i, w))
      (hrest : AbsorbRun cosine cfg dim (working.set i (w.absorb dim n view)) news plan) :
      AbsorbRun cosine cfg dim working (n :: news) (w.absorbed dim n view :: plan)

theorem absorbStep_eq_ok {n : Cluster} {acc : List AbsorbedCluster}
    {st : List WorkingCluster × List AbsorbedCluster} :
    absorbStep cosine cfg dim (working, acc) n = .ok st ↔ ∃ view, n.view = some view ∧
      (bestExisting cosine cfg view n.episodeIds.length working = none ∧ st = (working, acc) ∨
        ∃ i w, bestExisting cosine cfg view n.episodeIds.length working = some (i, w) ∧
          st = (working.set i (w.absorb dim n view), acc ++ [w.absorbed dim n view])) := by
  unfold absorbStep Cluster.view
  cases hc : n.centroid with
  | none => simp
  | some c =>
    dsimp only [Option.bind_some]
    cases hv : c.asF32Slice with
    | none => simp
    | some v =>
      dsimp only [Option.map_some]
      cases hbest : bestExisting cosine cfg (toFloats v) n.episodeIds.length working with
      | none => simp [hbest, eq_comm]
      | some b =>
        obtain ⟨i, w⟩ := b
        simp [hbest, eq_comm, WorkingCluster.absorbed]

theorem absorbRun_of_foldlM {acc acc' : List AbsorbedCluster} {last : List WorkingCluster}
    (h : news.foldlM (absorbStep cosine cfg dim) (working, acc) = .ok (last, acc')) :
    ∃ plan, acc' = acc ++ plan ∧ AbsorbRun cosine cfg dim working news plan := by
  induction news generalizing working acc with
  | nil =>
    obtain ⟨rfl, rfl⟩ := Prod.mk.inj (Result.pure_eq_ok.1 h)
    exact ⟨[], (List.append_nil _).symm, .done _⟩
  | cons n news ih =>
    obtain ⟨st, hstep, h⟩ := Result.foldlM_cons_eq_ok.1 h
    obtain ⟨view, hview, ⟨hbest, rfl⟩ | ⟨i, w, hbest, rfl⟩⟩ := absorbStep_eq_ok.1 hstep
    · obtain ⟨plan, rfl, hrun⟩ := ih h
      exact ⟨plan, rfl, .pass hview hbest hrun⟩
    · obtain ⟨plan, rfl, hrun⟩ := ih h
      exact ⟨w.absorbed dim n view :: plan, by rw [List.append_assoc, List.singleton_append],
        .absorb hview hbest hrun⟩

theorem foldlM_of_absorbRun (h : AbsorbRun cosine cfg dim working news plan)
    (acc : List AbsorbedCluster) :
    ∃ last, news.foldlM (absorbStep cosine cfg dim) (working, acc) = .ok (last, acc ++ plan) := by
  induction h generalizing acc with
  | done working => exact ⟨working, by rw [List.append_nil]; rfl⟩
  | pass hview hbest _ ih =>
    obtain ⟨last, hlast⟩ := ih acc
    exact ⟨last,
      Result.foldlM_cons_eq_ok.2 ⟨_, absorbStep_eq_ok.2 ⟨_, hview, .inl ⟨hbest, rfl⟩⟩, hlast⟩⟩
  | @absorb working n news plan view i w hview hbest _ ih =>
    obtain ⟨last, hlast⟩ := ih (acc ++ [w.absorbed dim n view])
    rw [List.append_assoc, List.singleton_append] at hlast
    exact ⟨last,
      Result.foldlM_cons_eq_ok.2 ⟨_, absorbStep_eq_ok.2 ⟨_, hview, .inr ⟨_, _, hbest, rfl⟩⟩, hlast⟩⟩

theorem IsTarget.perm {view : List Float32} {size : Nat} {w : WorkingCluster}
    (h : working.Perm working')
    (hw : IsTarget cosine cfg view size working w) : IsTarget cosine cfg view size working' w :=
  ⟨⟨h.mem_iff.1 hw.1.1, hw.1.2⟩, fun u hu => hw.2 u (h.mem_iff.2 hu)⟩

theorem IsTarget.unique (hids : (working.map (·.clusterId)).Nodup) {view : List Float32}
    {size : Nat}
    {w u : WorkingCluster} (hw : IsTarget cosine cfg view size working w)
    (hu : IsTarget cosine cfg view size working u) : w = u := by
  by_contra hne
  have hid : w.clusterId ≠ u.clusterId :=
    fun heq => hne (List.inj_on_of_nodup_map hids hw.1.1 hu.1.1 heq)
  have hwu := hw.2 u hu.1.1 hu.1.2 hid.symm
  have huw := hu.2 w hw.1.1 hw.1.2 hid
  rcases hwu.trans huw with hlt | ⟨-, hlt⟩
  · exact Nat.lt_irrefl _ hlt
  · exact lt_irrefl _ hlt

/-- Without rivals, every order of the existing clusters gives the documented plan. -/
theorem AbsorbRun.of_unrivalled (h : AbsorbRun cosine cfg dim working news plan)
    (hids : (working.map (·.clusterId)).Nodup) (hfree : Unrivalled cosine cfg dim working news) :
    Documented cosine cfg dim working news plan ∧
      ∀ working', working.Perm working' → AbsorbRun cosine cfg dim working' news plan := by
  induction h with
  | done working => exact ⟨.done working, fun working' _ => .done working'⟩
  | pass hview hbest _ ih =>
    have hnone := bestExisting_eq_none.1 hbest
    obtain ⟨hdoc, hall⟩ := ih hids ((hfree _ hview).1 hnone)
    refine ⟨.pass (fun view' hview' => ?_) hdoc, fun working' hperm => ?_⟩
    · obtain rfl := Option.some.inj (hview.symm.trans hview')
      exact hnone
    · exact .pass hview (bestExisting_eq_none.2 fun w hw => hnone w (hperm.mem_iff.2 hw))
        (hall working' hperm)
  | @absorb working n news plan view i w hview hbest _ ih =>
    obtain ⟨hi, hel⟩ := bestExisting_eq_some hbest
    obtain ⟨m, hm⟩ := exists_target hids ⟨w, List.mem_of_getElem? hi, hel⟩
    obtain ⟨hsim, hrest⟩ := (hfree _ hview).2 m hm
    obtain ⟨j, hj⟩ := bestExisting_of_target hids hm hsim
    obtain ⟨rfl, rfl⟩ := Prod.mk.inj (Option.some.inj (hbest.symm.trans hj))
    have hset : working.set i (w.absorb dim n view) = replaceById (w.absorb dim n view) working :=
      set_eq_replaceById hids hi rfl
    rw [hset] at ih
    obtain ⟨hdoc, hall⟩ := ih (by rwa [map_clusterId_replaceById]) hrest
    refine ⟨.absorb hview hm hdoc, fun working' hperm => ?_⟩
    have hids' := (hperm.map (·.clusterId)).nodup_iff.1 hids
    obtain ⟨k, hk⟩ :=
      bestExisting_of_target hids' (hm.perm hperm) fun u hu => hsim u (hperm.mem_iff.2 hu)
    have hset' : working'.set k (w.absorb dim n view) = replaceById (w.absorb dim n view)
        working' :=
      set_eq_replaceById hids' (bestExisting_eq_some hk).1 rfl
    refine .absorb hview hk ?_
    rw [hset']
    exact hall _ (replaceById_perm hperm)

theorem AbsorbRun.cons {n : Cluster} (h : AbsorbRun cosine cfg dim working (n :: news) plan) :
    ∃ view, n.view = some view ∧
      (bestExisting cosine cfg view n.episodeIds.length working = none ∧
        AbsorbRun cosine cfg dim working news plan ∨
        ∃ i w rest, bestExisting cosine cfg view n.episodeIds.length working = some (i, w) ∧
          plan = w.absorbed dim n view :: rest ∧
            AbsorbRun cosine cfg dim (working.set i (w.absorb dim n view)) news rest) := by
  cases h with
  | pass hview hbest hrest => exact ⟨_, hview, .inl ⟨hbest, hrest⟩⟩
  | absorb hview hbest hrest => exact ⟨_, hview, .inr ⟨_, _, _, hbest, rfl, hrest⟩⟩

/-- A run that gives `m` the new cluster found `m`. -/
theorem AbsorbRun.found {n : Cluster} {view : List Float32} {m : WorkingCluster}
    (h : AbsorbRun cosine cfg dim working (n :: news) (m.absorbed dim n view :: plan))
    (hids : (working.map (·.clusterId)).Nodup) (hview : n.view = some view) (hm : m ∈ working)
    (hel : Eligible cosine cfg view n.episodeIds.length m) :
    ∃ i, bestExisting cosine cfg view n.episodeIds.length working = some (i, m) ∧
      AbsorbRun cosine cfg dim (replaceById (m.absorb dim n view) working) news plan := by
  obtain ⟨view', hview', ⟨hnone, -⟩ | ⟨i, w, rest, hbest, hplan, hrest⟩⟩ := h.cons
  · obtain rfl := Option.some.inj (hview.symm.trans hview')
    exact absurd hel (bestExisting_eq_none.1 hnone m hm)
  · obtain rfl := Option.some.inj (hview.symm.trans hview')
    obtain ⟨hi, -⟩ := bestExisting_eq_some hbest
    obtain ⟨hhead, rfl⟩ := List.cons.inj hplan
    have hid : m.clusterId = w.clusterId := congrArg AbsorbedCluster.existingClusterId hhead
    obtain rfl := List.inj_on_of_nodup_map hids hm (List.mem_of_getElem? hi) hid
    have hset : working.set i (m.absorb dim n view) = replaceById (m.absorb dim n view) working :=
      set_eq_replaceById hids hi rfl
    exact ⟨i, hbest, hset ▸ hrest⟩

/-- A rival that comes first is found in the target's place. -/
theorem unrivalled_of_absorbRuns (hids : (working.map (·.clusterId)).Nodup)
    (hdoc : Documented cosine cfg dim working news plan)
    (hall : ∀ working', working.Perm working' → AbsorbRun cosine cfg dim working' news plan) :
    Unrivalled cosine cfg dim working news := by
  induction hdoc with
  | done working => trivial
  | @pass working n news plan hnone _ ih =>
    intro view hview
    have hno := hnone view hview
    refine ⟨fun _ => ih hids fun working' hperm => ?_, fun w hw => absurd hw.1.2 (hno w hw.1.1)⟩
    obtain ⟨view', hview', ⟨-, hrest⟩ | ⟨i, w, rest, hbest, -, -⟩⟩ := (hall working' hperm).cons
    · exact hrest
    · obtain ⟨hi, hel⟩ := bestExisting_eq_some hbest
      exact absurd hel (hnone view' hview' w (hperm.mem_iff.2 (List.mem_of_getElem? hi)))
  | @absorb working n news plan view m hview hm _ ih =>
    intro view' hview'
    obtain rfl := Option.some.inj (hview.symm.trans hview')
    refine ⟨fun hno => absurd hm.1.2 (hno m hm.1.1), fun w hw => ?_⟩
    obtain rfl := hm.unique hids hw
    refine ⟨fun u hu huel => ?_, ih (by rwa [map_clusterId_replaceById]) fun working' hperm => ?_⟩
    · obtain ⟨before, after, rfl⟩ := List.append_of_mem hu
      have hfirst : (before ++ u :: after).Perm (u :: (before ++ after)) := List.perm_middle
      obtain ⟨i, hi, -⟩ := (hall _ hfirst).found ((hfirst.map (·.clusterId)).nodup_iff.1 hids) hview
        (hfirst.mem_iff.1 hm.1.1) hm.1.2
      exact sim_le_of_first huel hi
    · have hids' : (working'.map (·.clusterId)).Nodup := by
        refine (hperm.map (·.clusterId)).nodup_iff.1 ?_
        rwa [map_clusterId_replaceById]
      have hmem : m.absorb dim n view ∈ working' :=
        hperm.mem_iff.1 (List.mem_map.2 ⟨m, hm.1.1, if_pos rfl⟩)
      have hback : working.Perm (replaceById m working') := by
        have hperm' : (replaceById m (replaceById (m.absorb dim n view) working)).Perm
            (replaceById m working') :=
          replaceById_perm hperm
        have hself : replaceById m (replaceById (m.absorb dim n view) working) = working :=
          replaceById_replaceById hids hm.1.1 rfl
        rwa [hself] at hperm'
      obtain ⟨-, -, hrest⟩ :=
        (hall _ hback).found ((hback.map (·.clusterId)).nodup_iff.1 hids) hview
        (hback.mem_iff.1 hm.1.1) hm.1.2
      have hforth : replaceById (m.absorb dim n view) (replaceById m working') = working' :=
        replaceById_replaceById hids' hmem rfl
      rwa [hforth] at hrest

/-! ### The call -/

variable {existing existing' : List ExistingClusterSummary}

/-- The centroids that the call accepts, for existing clusters of this dimension. -/
def Absorbable (dim : Nat) (news : List Cluster) (existing : List ExistingClusterSummary) : Prop :=
  (∀ s ∈ existing, s.centroid.dtype = .f32 ∧ s.centroid.dim = dim ∧ s.centroid.asF32Slice.isSome) ∧
    ∃ n ∈ news.head?, ∃ c ∈ n.centroid, c.dim = dim

theorem checkSummary_eq_ok {x : ExistingClusterSummary × Nat} {u : Unit} :
    checkSummary dim x = .ok u ↔ x.1.centroid.dtype = .f32 ∧ x.1.centroid.dim = dim := by
  unfold checkSummary
  dsimp only
  split_ifs with hdtype hdim <;> simp_all

theorem workingCluster_eq_ok {s : ExistingClusterSummary} {w : WorkingCluster} :
    workingCluster s = .ok w ↔ s.centroid.asF32Slice.isSome ∧ w = s.working := by
  unfold workingCluster ExistingClusterSummary.working
  cases s.centroid.asF32Slice <;> simp [eq_comm]

/-- A call on clusters of both kinds is a run of the loop, on centroids it accepts. -/
theorem absorbIntoExisting_eq_ok {first : ExistingClusterSummary}
    {rest : List ExistingClusterSummary} {n : Cluster} :
    absorbIntoExisting cosine cfg (n :: news) (first :: rest) = .ok plan ↔
      Absorbable first.centroid.dim (n :: news) (first :: rest) ∧
        AbsorbRun cosine cfg first.centroid.dim ((first :: rest).map ExistingClusterSummary.working)
        (n :: news) plan := by
  have hzip {s : ExistingClusterSummary} (hs : s ∈ first :: rest) : ∃ x ∈ (first :: rest).zipIdx,
      x.1 = s := by
    rwa [← List.mem_map, List.zipIdx_map_fst]
  constructor
  · intro h
    obtain ⟨u, hcheck, h⟩ := Result.bind_eq_ok.1 h
    cases hc : n.centroid with
    | none =>
      rw [hc] at h
      cases h
    | some c =>
      rw [hc] at h
      dsimp only at h
      split at h
      · cases h
      next hdim =>
      obtain ⟨working, hworking, h⟩ := Result.bind_eq_ok.1 h
      obtain ⟨⟨last, plan'⟩, hfold, h⟩ := Result.bind_eq_ok.1 h
      obtain rfl : plan' = plan := Result.pure_eq_ok.1 h
      have hmap : working.map id = (first :: rest).map ExistingClusterSummary.working :=
        Result.map_of_mapM_eq_ok (fun s w hs => (workingCluster_eq_ok.1 hs).2) hworking
      rw [List.map_id] at hmap
      subst hmap
      obtain ⟨plan, hplan, hrun⟩ := absorbRun_of_foldlM hfold
      rw [List.nil_append] at hplan
      refine ⟨⟨fun s hs => ?_, n, rfl, c, hc, not_not.1 hdim⟩, hplan ▸ hrun⟩
      obtain ⟨x, hx, rfl⟩ := hzip hs
      obtain ⟨hdtype, hdim⟩ := checkSummary_eq_ok.1 (Result.ok_of_forM_eq_ok hcheck hx)
      obtain ⟨w, hw⟩ := Result.ok_of_mapM_eq_ok hworking hs
      exact ⟨hdtype, hdim, (workingCluster_eq_ok.1 hw).1⟩
  · rintro ⟨⟨hall, n', hn', c, hc, hdim⟩, hrun⟩
    obtain rfl := Option.some.inj hn'
    have hcheck : (first :: rest).zipIdx.forM (checkSummary first.centroid.dim) = .ok () := by
      refine Result.forM_eq_ok fun x hx => ?_
      have hx := hall _ (List.fst_mem_of_mem_zipIdx hx)
      exact checkSummary_eq_ok.2 ⟨hx.1, hx.2.1⟩
    have hworking :
        (first :: rest).mapM workingCluster =
        .ok ((first :: rest).map ExistingClusterSummary.working) :=
      Result.mapM_eq_ok_map fun s hs => workingCluster_eq_ok.2 ⟨(hall s hs).2.2, rfl⟩
    obtain ⟨last, hfold⟩ := foldlM_of_absorbRun hrun []
    refine Result.bind_eq_ok.2 ⟨(), hcheck, ?_⟩
    rw [show n.centroid = some c from hc]
    dsimp only
    rw [if_neg (not_not_intro hdim), hworking]
    exact Result.bind_eq_ok.2 ⟨_, rfl, Result.bind_eq_ok.2 ⟨_, hfold, rfl⟩⟩

/-- The dimension of the first existing centroid. -/
def dimOf (existing : List ExistingClusterSummary) : Nat :=
  (existing.head?.map (·.centroid.dim)).getD 0

theorem Absorbable.perm (h : existing.Perm existing') (hok : Absorbable dim news existing) :
    Absorbable dim news existing' :=
  ⟨fun s hs => hok.1 s (h.mem_iff.2 hs), hok.2⟩

theorem unrivalled_nil : Unrivalled cosine cfg dim [] news := by
  induction news with
  | nil => trivial
  | cons n news ih => exact fun view _ => ⟨fun _ => ih, fun w hw => absurd hw.1.1 List.not_mem_nil⟩

theorem documented_nil : Documented cosine cfg dim [] news [] := by
  induction news with
  | nil => exact .done []
  | cons n news ih => exact .pass (fun _ _ w hw => absurd hw List.not_mem_nil) ih

/-- The absorptions are the documented ones, in every order of the existing clusters, exactly when
at no new cluster something that could absorb it is more similar to it than its target. -/
theorem absorbIntoExisting_documented_iff (cosine : List Float32 → List Float32 → Float32)
    (cfg : StewardConfig)
    (news : List Cluster) (existing : List ExistingClusterSummary) (plan : List AbsorbedCluster)
    (hids : (existing.map (·.clusterId)).Nodup)
    (h : absorbIntoExisting cosine cfg news existing = .ok plan) :
    (Documented cosine cfg (dimOf existing) (existing.map ExistingClusterSummary.working)
      news plan ∧
        ∀ existing', existing.Perm existing' → absorbIntoExisting cosine cfg news existing' =
          .ok plan) ↔
      Unrivalled cosine cfg (dimOf existing) (existing.map ExistingClusterSummary.working)
      news := by
  cases news with
  | nil =>
    have hempty (existing : List ExistingClusterSummary) :
        absorbIntoExisting cosine cfg [] existing = .ok [] := by
      cases existing <;> rfl
    obtain rfl := Except.ok.inj ((hempty existing).symm.trans h)
    exact iff_of_true ⟨.done _, fun existing' _ => hempty existing'⟩ trivial
  | cons n news =>
    cases existing with
    | nil =>
      obtain rfl : [] = plan := Except.ok.inj h
      refine iff_of_true ⟨documented_nil, fun existing' hperm => ?_⟩ unrivalled_nil
      rw [hperm.nil_eq.symm]
      rfl
    | cons first rest =>
      obtain ⟨hok, hrun⟩ := absorbIntoExisting_eq_ok.1 h
      have hids' :
          (((first :: rest).map ExistingClusterSummary.working).map (·.clusterId)).Nodup := by
        rwa [List.map_map]
      have hcall (existing' : List ExistingClusterSummary)
          (hperm : (first :: rest).Perm existing') :
          absorbIntoExisting cosine cfg (n :: news) existing' = .ok plan ↔
            AbsorbRun cosine cfg first.centroid.dim (existing'.map ExistingClusterSummary.working)
            (n :: news) plan := by
        cases existing' with
        | nil => exact absurd hperm.symm.nil_eq (List.cons_ne_nil _ _).symm
        | cons first' rest' =>
          have hdim : first'.centroid.dim = first.centroid.dim :=
            (hok.1 first' (hperm.mem_iff.2 List.mem_cons_self)).2.1
          rw [absorbIntoExisting_eq_ok, hdim]
          exact and_iff_right (hok.perm hperm)
      constructor
      · rintro ⟨hdoc, hall⟩
        refine unrivalled_of_absorbRuns hids' hdoc fun working' hperm => ?_
        obtain ⟨existing', hexisting', rfl⟩ := exists_map_eq_of_perm hperm
        exact (hcall existing' hexisting').1 (hall existing' hexisting')
      · intro hfree
        obtain ⟨hdoc, hall⟩ := hrun.of_unrivalled hids' hfree
        exact ⟨hdoc, fun existing' hperm => (hcall existing' hperm).2 (hall _ (hperm.map _))⟩

end Runs

namespace CloserRival

/-- Two clusters that reach the threshold: the larger one is less similar. -/
def close : Embedding := ⟨.f32, 2, [0, 0, 128, 63, 0, 0, 0, 0]⟩

def wide : Embedding := ⟨.f32, 2, [0, 0, 128, 63, 0, 0, 0, 63]⟩

def config : StewardConfig := ⟨1, 10, 0.5, Nat.one_pos⟩

def news : List Cluster := [⟨"n", ["m"], some close, 1⟩]

def small : ExistingClusterSummary := ⟨"a", close, 1, 2⟩

def large : ExistingClusterSummary := ⟨"b", wide, 1, 5⟩

theorem small_first : ∃ plan, absorbIntoExisting cosineSimilarityF32 config news [small, large] =
    .ok plan ∧ plan.map (·.existingClusterId) = ["a"] := by
  have hrun : ((absorbIntoExisting cosineSimilarityF32 config news [small, large]).toOption.map
      fun plan => plan.map (·.existingClusterId)) = some ["a"] := by decide +kernel
  cases hres : absorbIntoExisting cosineSimilarityF32 config news [small, large] with
  | error e =>
    rw [hres] at hrun
    cases hrun
  | ok plan =>
    rw [hres] at hrun
    exact ⟨plan, rfl, Option.some.inj hrun⟩

end CloserRival

open CloserRival in
theorem absorbIntoExisting_documented_iff_small : ∃ plan,
    absorbIntoExisting cosineSimilarityF32 config news [small, large] = .ok plan ∧
      ((Documented cosineSimilarityF32 config 2 [small.working, large.working] news plan ∧
          ∀ existing', [small, large].Perm existing' →
            absorbIntoExisting cosineSimilarityF32 config news existing' = .ok plan) ↔
        Unrivalled cosineSimilarityF32 config 2 [small.working, large.working] news) := by
  obtain ⟨plan, hplan, -⟩ := small_first
  exact ⟨plan, hplan, absorbIntoExisting_documented_iff cosineSimilarityF32 config news
    [small, large] plan (by decide) hplan⟩

open CloserRival in
/-- The cluster of five has room and reaches the threshold; the scan met a more similar one
first. -/
theorem closerRival_absorbs : ∃ plan,
    absorbIntoExisting cosineSimilarityF32 config news [small, large] = .ok plan ∧
      ¬ Documented cosineSimilarityF32 config (dimOf [small, large])
        ([small, large].map ExistingClusterSummary.working) news plan ∧
      absorbIntoExisting cosineSimilarityF32 config news [large, small] ≠ .ok plan := by
  obtain ⟨plan, hplan, hids⟩ := small_first
  refine ⟨plan, hplan, fun hdoc => ?_, fun hsame => ?_⟩
  · have hlarge : Eligible cosineSimilarityF32 config (toFloats [0x3f800000, 0])
        1 large.working := by
      constructor <;> decide +kernel
    cases hdoc with
    | pass hnone _ => exact hnone _ rfl large.working (by simp) hlarge
    | @absorb _ _ _ _ view w hview htarget _ =>
      obtain rfl : toFloats [0x3f800000, 0] = view := Option.some.inj hview
      have hid : w.clusterId = "a" := (List.cons.inj hids).1
      have hw : w = small.working := by
        rcases List.mem_cons.1 htarget.1.1 with rfl | hmem
        · rfl
        · obtain rfl := List.mem_singleton.1 hmem
          exact absurd hid (by decide)
      subst hw
      rcases htarget.2 large.working (by simp) hlarge (by decide) with hlt | ⟨heq, -⟩
      · exact absurd hlt (by decide)
      · exact absurd heq (by decide)
  · have hother : ((absorbIntoExisting cosineSimilarityF32 config news [large, small]).toOption.map
        fun plan => plan.map (·.existingClusterId)) = some ["b"] := by decide +kernel
    rw [hsame] at hother
    have hboth : plan.map (·.existingClusterId) = ["b"] := Option.some.inj hother
    rw [hids] at hboth
    revert hboth
    decide

end Solo
