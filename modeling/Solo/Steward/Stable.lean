import Mathlib.Algebra.Order.Ring.Int
import Mathlib.Data.Finset.Dedup
import Mathlib.Data.String.Basic
import Solo.Lib.StableSort
import Solo.Steward.Clusters

/-!
# Clustering again (`cluster_episodes`)

A second run may see the list in another order, and its hash map gives the roots in another order.
The components and their chunks are the same; what the order of the roots decides is how clusters
that begin at the same millisecond are ordered, for the last sort is stable and knows only the time.
-/

namespace Solo

open StableSort Relation

/-! ### Episodes by time and id -/

instance : Std.Total Earlier where
  total a b := by
    rcases Int.lt_trichotomy a.1.tsMs b.1.tsMs with hlt | heq | hgt
    · exact .inl (.inl hlt)
    · rcases le_total a.1.memoryId b.1.memoryId with hle | hle
      · exact .inl (.inr ⟨heq, hle⟩)
      · exact .inr (.inr ⟨heq.symm, hle⟩)
    · exact .inr (.inl hgt)

instance : IsTrans (ClusterInput × List Float32) Earlier where
  trans a b c := by
    rintro (hab | ⟨hab, hab'⟩) (hbc | ⟨hbc, hbc'⟩)
    · exact .inl (hab.trans hbc)
    · exact .inl (hbc ▸ hab)
    · exact .inl (hab ▸ hbc)
    · exact .inr ⟨hab.trans hbc, hab'.trans hbc'⟩

theorem Earlier.tsMs_le {a b : ClusterInput × List Float32} (h : Earlier a b) :
    a.1.tsMs ≤ b.1.tsMs := by
  rcases h with hlt | ⟨heq, -⟩
  · exact hlt.le
  · exact heq.le

theorem Earlier.memoryId_eq {a b : ClusterInput × List Float32} (hab : Earlier a b)
    (hba : Earlier b a) : a.1.memoryId = b.1.memoryId := by
  rcases hab with hlt | ⟨heq, hle⟩
  · exact absurd (hlt.trans_le hba.tsMs_le) (lt_irrefl _)
  · rcases hba with hlt | ⟨-, hle'⟩
    · exact absurd heq hlt.ne'
    · exact le_antisymm hle hle'

variable {l l' : List (ClusterInput × List Float32)}

/-- With distinct ids, the members of a list fix its sorted order. -/
theorem insertionSort_earlier_eq (h : l.Perm l') (hids : (l.map (·.1.memoryId)).Nodup) :
    l.insertionSort Earlier = l'.insertionSort Earlier := by
  have hperm : (l.insertionSort Earlier).Perm (l'.insertionSort Earlier) :=
    (List.perm_insertionSort _ _).trans (h.trans (List.perm_insertionSort _ _).symm)
  refine hperm.eq_of_pairwise ?_ (List.pairwise_insertionSort _ _) (List.pairwise_insertionSort _ _)
  intro a b ha hb hab hba
  have hb' : b ∈ l := h.mem_iff.2 ((List.mem_insertionSort _).1 hb)
  exact List.inj_on_of_nodup_map hids ((List.mem_insertionSort _).1 ha) hb' (hab.memoryId_eq hba)

theorem map_tsMs_insertionSort :
    (l.insertionSort Earlier).map (·.1.tsMs) = (l.map (·.1.tsMs)).insertionSort (· ≤ ·) := by
  have hperm :
      ((l.insertionSort Earlier).map (·.1.tsMs)).Perm ((l.map (·.1.tsMs)).insertionSort (· ≤ ·)) :=
    ((List.perm_insertionSort _ _).map _).trans (List.perm_insertionSort _ _).symm
  refine hperm.eq_of_pairwise (fun a b _ _ => le_antisymm) ?_ (List.pairwise_insertionSort _ _)
  rw [List.pairwise_map]
  exact (List.pairwise_insertionSort Earlier l).imp Earlier.tsMs_le

/-! ### Where chunks begin -/

/-- The kept chunks are those that begin with at least the minimum left. -/
theorem mem_keptChunks_iff {α : Type} {size min : Nat} (hpos : 0 < min) (hmin : min ≤ size)
    {l c : List α} :
    c ∈ keptChunks size min l ↔ ∃ k, k * size + min ≤ l.length ∧
    c = (l.drop (k * size)).take size := by
  have hsize : 0 < size := Nat.lt_of_lt_of_le hpos hmin
  induction l using chunks_induction hsize with
  | hnil =>
    simp only [keptChunks, chunks_nil, List.filter_nil, List.not_mem_nil, List.length_nil,
      false_iff, not_exists]
    omega
  | hcons l hl ih =>
    have hmem : c ∈ keptChunks size min l ↔
        (min ≤ (l.take size).length ∧ c = l.take size) ∨ c ∈ keptChunks size min (l.drop size) := by
      rw [keptChunks, chunks_of_ne_nil hsize hl, List.mem_filter, List.mem_cons, or_and_right,
        decide_eq_true_eq, keptChunks, List.mem_filter, decide_eq_true_eq]
      refine or_congr ⟨?_, ?_⟩ Iff.rfl
      · rintro ⟨rfl, hlen⟩
        exact ⟨hlen, rfl⟩
      · rintro ⟨hlen, rfl⟩
        exact ⟨rfl, hlen⟩
    refine (hmem.trans (or_congr Iff.rfl ih)).trans ?_
    clear ih hmem
    constructor
    · rintro (⟨hlen, rfl⟩ | ⟨k, hk, rfl⟩)
      · rw [List.length_take] at hlen
        refine ⟨0, by omega, by simp⟩
      · rw [List.length_drop] at hk
        refine ⟨k + 1, ?_, ?_⟩
        · rw [Nat.add_mul]
          omega
        · rw [List.drop_drop, Nat.add_mul, Nat.one_mul, Nat.add_comm]
    · rintro ⟨k, hk, rfl⟩
      cases k with
      | zero =>
        refine .inl ⟨?_, by simp⟩
        rw [List.length_take]
        omega
      | succ k =>
        rw [Nat.add_mul] at hk
        refine .inr ⟨k, ?_, ?_⟩
        · rw [List.length_drop]
          omega
        · rw [List.drop_drop, Nat.add_mul, Nat.one_mul, Nat.add_comm]

/-- A time at which a kept chunk of a component begins, read off the times of its members: one in
`max_size` of the sorted times, as long as the minimum is left. -/
def StartsAt (cfg : StewardConfig) (times : List Int) (t : Int) : Prop :=
  ∃ k, k * cfg.maxSize + cfg.clusterMinSize ≤ times.length ∧
    (times.insertionSort (· ≤ ·))[k * cfg.maxSize]? = some t

/-- The time of the first member. -/
def startOf (members : List (ClusterInput × List Float32)) : Int :=
  (members.head?.map (·.1.tsMs)).getD 0

theorem startsAt_iff {cfg : StewardConfig} {t : Int} :
    StartsAt cfg (l.map (·.1.tsMs)) t ↔ ∃ members ∈ splitComponentByTime cfg l, startOf members =
    t := by
  have hstart (n : Nat) (hn : n < l.length) :
      startOf (((l.insertionSort Earlier).drop n).take cfg.maxSize) = t ↔
        ((l.map (·.1.tsMs)).insertionSort (· ≤ ·))[n]? = some t := by
    rw [← map_tsMs_insertionSort, List.getElem?_map, startOf, List.head?_take,
      if_neg cfg.maxSize_pos.ne',
      List.head?_drop, List.getElem?_eq_getElem (by rwa [List.length_insertionSort])]
    simp
  simp only [splitComponentByTime_eq,
    mem_keptChunks_iff cfg.clusterMinSize_pos cfg.minSize_le_maxSize,
    List.length_insertionSort, StartsAt, List.length_map]
  have hpos := cfg.clusterMinSize_pos
  constructor
  · rintro ⟨k, hk, ht⟩
    exact ⟨_, ⟨k, hk, rfl⟩, (hstart _ (by omega)).2 ht⟩
  · rintro ⟨_, ⟨k, hk, rfl⟩, ht⟩
    exact ⟨k, hk, (hstart _ (by omega)).1 ht⟩

/-! ### Components by their members -/

/-- Two episodes of a bucket that reach the threshold. -/
def Near (cosine : List Float32 → List Float32 → Float32) (cfg : StewardConfig)
    (bucket : List ClusterInput) (x y : ClusterInput) : Prop :=
  x ∈ bucket ∧ y ∈ bucket ∧ cfg.clusterCosineThreshold ≤ cosine x.view y.view

open Classical in
/-- The component of an episode, in the order of the bucket. -/
noncomputable def membersWith (cosine : List Float32 → List Float32 → Float32) (cfg : StewardConfig)
    (bucket : List ClusterInput) (x : ClusterInput) : List ClusterInput :=
  bucket.filter fun y => EqvGen (Near cosine cfg bucket) x y

section Components

variable {cosine : List Float32 → List Float32 → Float32} {cfg : StewardConfig}
  {bucket bucket' : List ClusterInput}

theorem similarAt_iff {i j : Nat} (hi : i < bucket.length) (hj : j < bucket.length) :
    similarAt cosine cfg bucket i j = true ↔
    cfg.clusterCosineThreshold ≤ cosine bucket[i].view bucket[j].view := by
  unfold similarAt
  rw [decide_eq_true_eq, List.getD_eq_getElem?_getD, List.getD_eq_getElem?_getD, List.getElem?_map,
    List.getElem?_map, List.getElem?_eq_getElem hi, List.getElem?_eq_getElem hj]
  rfl

theorem SameComponent.near {i j : Nat} (h : SameComponent cosine cfg bucket i j) :
    ∀ (hi : i < bucket.length) (hj : j < bucket.length), EqvGen (Near cosine cfg bucket) bucket[i]
    bucket[j] := by
  have hpair : i = j ∨ ∃ (hi : i < bucket.length) (hj : j < bucket.length),
      EqvGen (Near cosine cfg bucket) bucket[i] bucket[j] := by
    induction h with
    | rel a b hab =>
      obtain ⟨hlt, hb, hsim⟩ := hab
      have ha := hlt.trans hb
      exact .inr
        ⟨ha, hb, .rel _ _ ⟨List.getElem_mem ha, List.getElem_mem hb, (similarAt_iff ha hb).1 hsim⟩⟩
    | refl a => exact .inl rfl
    | symm a b _ ih =>
      rcases ih with heq | ⟨ha, hb, hab⟩
      · exact .inl heq.symm
      · exact .inr ⟨hb, ha, hab.symm⟩
    | trans a b c _ _ ihab ihbc =>
      rcases ihab with rfl | ⟨ha, hb, hab⟩
      · exact ihbc
      · rcases ihbc with rfl | ⟨_, hc, hbc⟩
        · exact .inr ⟨ha, hb, hab⟩
        · exact .inr ⟨ha, hc, hab.trans _ _ _ hbc⟩
  intro hi hj
  rcases hpair with rfl | ⟨_, _, hij⟩
  · exact .refl _
  · exact hij

/-- An edge in either direction, between two positions that hold its ends. -/
theorem sameComponent_of_near (hcosine : ∀ a b, cosine a b = cosine b a) {i j : Nat}
    (hi : i < bucket.length) (hj : j < bucket.length)
    (h : Near cosine cfg bucket bucket[i] bucket[j]) : SameComponent cosine cfg bucket i j := by
  obtain ⟨-, -, hsim⟩ := h
  rcases Nat.lt_trichotomy i j with hlt | rfl | hgt
  · exact .rel _ _ ⟨hlt, hj, (similarAt_iff hi hj).2 hsim⟩
  · exact .refl _
  · rw [hcosine] at hsim
    exact .symm _ _ (.rel _ _ ⟨hgt, hi, (similarAt_iff hj hi).2 hsim⟩)

theorem sameComponent_of_eqvGen (hcosine : ∀ a b, cosine a b = cosine b a) (hnodup : bucket.Nodup)
    {x y : ClusterInput} (h : EqvGen (Near cosine cfg bucket) x y) :
    x = y ∨ ∃ i j, ∃ (hi : i < bucket.length) (hj : j < bucket.length), bucket[i] = x ∧
    bucket[j] = y ∧
      SameComponent cosine cfg bucket i j := by
  induction h with
  | rel x y hxy =>
    obtain ⟨i, hi, rfl⟩ := List.getElem_of_mem hxy.1
    obtain ⟨j, hj, rfl⟩ := List.getElem_of_mem hxy.2.1
    exact .inr ⟨i, j, hi, hj, rfl, rfl, sameComponent_of_near hcosine hi hj hxy⟩
  | refl x => exact .inl rfl
  | symm x y _ ih =>
    rcases ih with rfl | ⟨i, j, hi, hj, hx, hy, hij⟩
    · exact .inl rfl
    · exact .inr ⟨j, i, hj, hi, hy, hx, .symm _ _ hij⟩
  | trans x y z _ _ ihxy ihyz =>
    rcases ihxy with rfl | ⟨i, j, hi, hj, hx, hy, hij⟩
    · exact ihyz
    · rcases ihyz with rfl | ⟨j', k, hj', hk, hy', hz, hjk⟩
      · exact .inr ⟨i, j, hi, hj, hx, hy, hij⟩
      · obtain rfl : j = j' := (hnodup.getElem_inj_iff).1 (hy.trans hy'.symm)
        exact .inr ⟨i, k, hi, hk, hx, hz, .trans _ _ _ hij hjk⟩

theorem sameComponent_iff (hcosine : ∀ a b, cosine a b = cosine b a) (hnodup : bucket.Nodup)
    {i j : Nat} (hi : i < bucket.length) (hj : j < bucket.length) :
    SameComponent cosine cfg bucket i j ↔ EqvGen (Near cosine cfg bucket) bucket[i] bucket[j] := by
  constructor
  · exact fun h => h.near hi hj
  · intro h
    rcases sameComponent_of_eqvGen hcosine hnodup h with heq | ⟨i', j', hi', hj', hx, hy, hij⟩
    · rw [hnodup.getElem_inj_iff.1 heq]
      exact .refl _
    · rw [← hnodup.getElem_inj_iff.1 hx, ← hnodup.getElem_inj_iff.1 hy]
      exact hij

/-- The component of a position, without the positions. -/
theorem map_fst_componentOf (hcosine : ∀ a b, cosine a b = cosine b a) (hnodup : bucket.Nodup)
    {i : Nat} (hi : i < bucket.length) :
    (componentOf cosine cfg bucket i).map Prod.fst = membersWith cosine cfg bucket bucket[i] := by
  classical
  have hfilter : componentOf cosine cfg bucket i =
      bucket.zipIdx.filter
      ((fun y => decide (EqvGen (Near cosine cfg bucket) bucket[i] y)) ∘ Prod.fst) := by
    refine List.filter_congr fun y hy => ?_
    obtain ⟨-, hlt, heq⟩ := List.mem_zipIdx hy
    rw [Nat.zero_add] at hlt
    simp only [Nat.sub_zero] at heq
    rw [Function.comp_apply, decide_eq_decide, heq, sameComponent_iff hcosine hnodup hi hlt]
  rw [hfilter, ← List.filter_map, List.zipIdx_map_fst]
  unfold membersWith
  congr

theorem membersWith_perm (h : bucket.Perm bucket') (x : ClusterInput) :
    (membersWith cosine cfg bucket x).Perm (membersWith cosine cfg bucket' x) := by
  have hnear : Near cosine cfg bucket = Near cosine cfg bucket' := by
    funext a b
    simp only [Near, h.mem_iff]
  unfold membersWith
  rw [hnear]
  exact h.filter _

/-! ### The chunks of a day, component by component -/

/-- The chunks of each component of a day, in the order in which the hash map gives the roots. -/
def daySplits (cosine : List Float32 → List Float32 → Float32) (cfg : StewardConfig)
    (hash : HashOrder)
    (bucket : List ClusterInput) (day : Int) : List (List (List (ClusterInput × List Float32))) :=
  ((dayGroups cosine cfg hash bucket day).filter fun g => cfg.clusterMinSize ≤ g.length).map
    (splitComponentByTime cfg)

theorem daySplits_eq {hash : HashOrder} {day : Int} {f : Nat → Nat} {keys : List Nat}
    (hgroups : dayGroups cosine cfg hash bucket day = keys.map (groupAt bucket f)) :
    daySplits cosine cfg hash bucket day =
      (keys.filter fun r => cfg.clusterMinSize ≤ (groupAt bucket f r).length).map
        fun r => splitComponentByTime cfg (groupAt bucket f r) := by
  rw [daySplits, hgroups, List.filter_map, List.map_map]
  rfl

theorem dayComponents_eq_flatten {hash : HashOrder} {inputs : List ClusterInput} {day : Int} :
    dayComponents cosine cfg hash (inputs.map ClusterInput.withView) day =
      (daySplits cosine cfg hash (bucketOf inputs day) day).flatten := by
  obtain ⟨f, roots, -, -, -, hgroups⟩ := dayGroups_spec cosine cfg (bucketOf inputs day)
  rw [dayComponents_eq_groups (hgroups hash day), daySplits_eq (hgroups hash day), List.flatMap_def]

/-- A component that reaches the minimum has a first chunk. -/
theorem split_ne_nil {group : List (ClusterInput × List Float32)}
    (h : cfg.clusterMinSize ≤ group.length) :
    ∃ members ∈ splitComponentByTime cfg group, members ≠ [] := by
  have hpos := cfg.clusterMinSize_pos
  have hmem : ((group.insertionSort Earlier).drop (0 * cfg.maxSize)).take cfg.maxSize ∈
      splitComponentByTime cfg group := by
    rw [splitComponentByTime_eq, mem_keptChunks_iff hpos cfg.minSize_le_maxSize]
    exact ⟨0, by rw [List.length_insertionSort]; omega, rfl⟩
  refine ⟨_, hmem, List.ne_nil_of_length_pos ?_⟩
  exact Nat.lt_of_lt_of_le hpos (length_of_mem_split hmem).1

theorem groupAt_eq {f : Nat → Nat} {i : Nat}
    (hcomp : componentOf cosine cfg bucket i = bucket.zipIdx.filter (f ·.2 = f i)) :
    groupAt bucket f (f i) = ((componentOf cosine cfg bucket i).map Prod.fst).map
    ClusterInput.withView := by
  rw [hcomp, groupAt, List.map_map]
  rfl

/-- The chunks of a day are those of its components. -/
theorem mem_daySplits (hcosine : ∀ a b, cosine a b = cosine b a) (hnodup : bucket.Nodup)
    {hash : HashOrder} {day : Int} {s : List (List (ClusterInput × List Float32))} :
    s ∈ daySplits cosine cfg hash bucket day ↔ ∃ x ∈ bucket,
      cfg.clusterMinSize ≤ (membersWith cosine cfg bucket x).length ∧
        s = splitComponentByTime cfg
        ((membersWith cosine cfg bucket x).map ClusterInput.withView) := by
  obtain ⟨f, roots, -, hmem, hcomp, hgroups⟩ := dayGroups_spec cosine cfg bucket
  have hgroup : ∀ (i : Nat) (hi : i < bucket.length),
      groupAt bucket f (f i) = (membersWith cosine cfg bucket bucket[i]).map
      ClusterInput.withView := by
    intro i hi
    rw [groupAt_eq (hcomp i hi), map_fst_componentOf hcosine hnodup hi]
  rw [daySplits_eq (hgroups hash day), List.mem_map]
  constructor
  · rintro ⟨r, hr, rfl⟩
    obtain ⟨hr, hmin⟩ := List.mem_filter.1 hr
    obtain ⟨i, hi, rfl⟩ := (hmem r).1 ((hash.perm day roots).mem_iff.1 hr)
    rw [hgroup i hi, List.length_map, decide_eq_true_eq] at hmin
    exact ⟨bucket[i], List.getElem_mem hi, hmin, by rw [hgroup i hi]⟩
  · rintro ⟨x, hx, hmin, rfl⟩
    obtain ⟨i, hi, rfl⟩ := List.getElem_of_mem hx
    refine ⟨f i, List.mem_filter.2 ⟨(hash.perm day roots).mem_iff.2 ((hmem _).2 ⟨i, hi, rfl⟩), ?_⟩,
      ?_⟩
    · rw [hgroup i hi, List.length_map, decide_eq_true_eq]
      exact hmin
    · rw [hgroup i hi]

theorem root_eq_of_mem_groupAt (hnodup : bucket.Nodup) {f : Nat → Nat} {r r' : Nat}
    {x x' : ClusterInput × List Float32} (hx : x ∈ groupAt bucket f r)
    (hx' : x' ∈ groupAt bucket f r') (h : x.1 = x'.1) : r = r' := by
  obtain ⟨y, hy, rfl⟩ := List.mem_map.1 hx
  obtain ⟨y', hy', rfl⟩ := List.mem_map.1 hx'
  obtain ⟨hy, hr⟩ := List.mem_filter.1 hy
  obtain ⟨hy', hr'⟩ := List.mem_filter.1 hy'
  obtain ⟨-, hlt, heq⟩ := List.mem_zipIdx hy
  obtain ⟨-, hlt', heq'⟩ := List.mem_zipIdx hy'
  simp only [Nat.zero_add, Nat.sub_zero] at hlt hlt' heq heq'
  have hpos : y.2 = y'.2 := hnodup.getElem_inj_iff.1 (heq.symm.trans (h.trans heq'))
  rw [← of_decide_eq_true hr, ← of_decide_eq_true hr', hpos]

/-- Two groups share no entry, so two lists of chunks differ. -/
theorem nodup_daySplits (hnodup : bucket.Nodup) {hash : HashOrder} {day : Int} :
    (daySplits cosine cfg hash bucket day).Nodup := by
  obtain ⟨f, roots, hroots, hmem, -, hgroups⟩ := dayGroups_spec cosine cfg bucket
  rw [daySplits_eq (hgroups hash day)]
  refine List.Nodup.map_on ?_ (((hash.perm day roots).nodup_iff.2 hroots).filter _)
  intro r hr r' _ heq
  obtain ⟨members, hmembers, hne⟩ := split_ne_nil (of_decide_eq_true (List.mem_filter.1 hr).2)
  obtain ⟨x, hx⟩ := List.exists_mem_of_ne_nil _ hne
  have hx' := mem_of_mem_split (heq ▸ hmembers) hx
  exact root_eq_of_mem_groupAt hnodup (mem_of_mem_split hmembers hx) hx' rfl

/-- Neither the order of the bucket nor that of the roots changes the chunks of its components. -/
theorem daySplits_perm (hcosine : ∀ a b, cosine a b = cosine b a)
    (hids : (bucket.map (·.memoryId)).Nodup)
    (h : bucket.Perm bucket') {hash hash' : HashOrder} {day : Int} :
    (daySplits cosine cfg hash bucket day).Perm (daySplits cosine cfg hash' bucket' day) := by
  have hnodup : bucket.Nodup := List.Nodup.of_map _ hids
  rw [List.perm_ext_iff_of_nodup (nodup_daySplits hnodup) (nodup_daySplits (h.nodup_iff.1 hnodup))]
  intro s
  rw [mem_daySplits hcosine hnodup, mem_daySplits hcosine (h.nodup_iff.1 hnodup)]
  refine exists_congr fun x => and_congr h.mem_iff ?_
  have hmembers : (membersWith cosine cfg bucket x).Perm _ := membersWith_perm h x
  rw [hmembers.length_eq]
  refine and_congr Iff.rfl ?_
  have hsplit :
      splitComponentByTime cfg ((membersWith cosine cfg bucket x).map ClusterInput.withView) =
      splitComponentByTime cfg ((membersWith cosine cfg bucket' x).map ClusterInput.withView) := by
    rw [splitComponentByTime_eq, splitComponentByTime_eq, insertionSort_earlier_eq (hmembers.map _)]
    rw [map_memoryId_withView]
    exact (List.filter_sublist.map _).nodup hids
  rw [hsplit]

/-- The times of a position's component. -/
noncomputable def timesOf (cosine : List Float32 → List Float32 → Float32) (cfg : StewardConfig)
    (bucket : List ClusterInput) (i : Nat) : List Int :=
    (componentOf cosine cfg bucket i).map (·.1.tsMs)

/-- No two components of one day have kept chunks that begin at the same time. -/
def SharesNoStart (cosine : List Float32 → List Float32 → Float32) (cfg : StewardConfig)
    (inputs : List ClusterInput) : Prop :=
  ∀ day, ∀ i < (bucketOf inputs day).length, ∀ j < (bucketOf inputs day).length,
    ¬ SameComponent cosine cfg (bucketOf inputs day) i j →
      ∀ t, StartsAt cfg (timesOf cosine cfg (bucketOf inputs day) i) t →
        ¬ StartsAt cfg (timesOf cosine cfg (bucketOf inputs day) j) t

theorem map_tsMs_groupAt {f : Nat → Nat} {i : Nat}
    (hcomp : componentOf cosine cfg bucket i = bucket.zipIdx.filter (f ·.2 = f i)) :
    (groupAt bucket f (f i)).map (·.1.tsMs) = timesOf cosine cfg bucket i := by
  rw [groupAt_eq hcomp, List.map_map, List.map_map]
  rfl

/-- Positions with different roots are in different components. -/
theorem not_sameComponent {f : Nat → Nat} {i j : Nat} (hj : j < bucket.length)
    (hcomp : componentOf cosine cfg bucket i = bucket.zipIdx.filter (f ·.2 = f i))
    (hne : f i ≠ f j) : ¬ SameComponent cosine cfg bucket i j := by
  intro hsame
  have hzip : (bucket[j], j) ∈ bucket.zipIdx :=
    List.mk_mem_zipIdx_iff_getElem?.2 (List.getElem?_eq_getElem hj)
  have hmem := (mem_componentOf cosine cfg).2 ⟨hzip, hsame⟩
  rw [hcomp, List.mem_filter, decide_eq_true_eq] at hmem
  exact hne hmem.2.symm

theorem pairwise_daySplits {inputs : List ClusterInput} (h : SharesNoStart cosine cfg inputs)
    {hash : HashOrder}
    {day : Int} : (daySplits cosine cfg hash (bucketOf inputs day) day).Pairwise fun s s' =>
      ∀ m ∈ s, ∀ m' ∈ s', startOf m ≠ startOf m' := by
  obtain ⟨f, roots, hroots, hmem, hcomp, hgroups⟩ := dayGroups_spec cosine cfg (bucketOf inputs day)
  rw [daySplits_eq (hgroups hash day), List.pairwise_map]
  have hkeys := ((hash.perm day roots).nodup_iff.2 hroots).filter fun r =>
    decide (cfg.clusterMinSize ≤ (groupAt (bucketOf inputs day) f r).length)
  refine List.Pairwise.imp_of_mem (fun {r r'} hr hr' hne m hm m' hm' heq => ?_) hkeys
  obtain ⟨i, hi, rfl⟩ := (hmem r).1 ((hash.perm day roots).mem_iff.1 (List.mem_of_mem_filter hr))
  obtain ⟨j, hj, rfl⟩ := (hmem r').1 ((hash.perm day roots).mem_iff.1 (List.mem_of_mem_filter hr'))
  have hti := startsAt_iff.2 ⟨m, hm, rfl⟩
  have htj := startsAt_iff.2 ⟨m', hm', rfl⟩
  rw [map_tsMs_groupAt (hcomp i hi)] at hti
  rw [map_tsMs_groupAt (hcomp j hj), ← heq] at htj
  exact h day i hi j hj (not_sameComponent hj (hcomp i hi) hne) _ hti htj

end Components

end Solo
