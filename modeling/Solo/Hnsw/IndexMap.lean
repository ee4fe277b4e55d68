import Mathlib.Data.List.Nodup
import Mathlib.Data.List.Perm.Basic
import Mathlib.Data.Fintype.Pi
import Solo.Hnsw.Index

/-!
# When the index is a map from id to vector

`VectorIndex` documents `add` as replacing the vector of an existing rowid. `IndexOp` runs a
sequence of `add` and `remove` calls on a fresh index; `vecOf` is the map those calls describe. The
index behaves as that map (`RefinesMap`) exactly for the sequences with `MapLike`: no live id was
added twice, and the adds of ids that are dead at the end are as many as the tombstones that `len`
subtracts.
-/

namespace Solo

/-- What is assumed of the graph library: a search returns the `n` inserted pairs nearest to the
query, nearest first. -/
def ExactKnn {D : Type*} [LinearOrder D] (dist : Vector → Vector → D) (knn : Knn D) : Prop :=
  ∀ graph q n ef, ∃ rest,
    (knn graph q n ef ++ rest).Perm (graph.map fun p => (p.2, dist q p.1)) ∧
    (knn graph q n ef).length = min n graph.length ∧
    (knn graph q n ef).Pairwise (fun a b => a.2 ≤ b.2) ∧
    ∀ a ∈ knn graph q n ef, ∀ b ∈ rest, a.2 ≤ b.2

inductive IndexOp
  | add (rowid : I64) (v : Vector)
  | remove (rowid : I64)
  deriving DecidableEq

namespace IndexOp

/-- A failed `add` leaves the index as it is. -/
def apply (ix : HnswIndex) : IndexOp → HnswIndex
  | .add rowid v => (ix.add rowid v).toOption.getD ix
  | .remove rowid => ix.remove rowid

/-- The id the call adds to an index of dimension `dim`, if it succeeds in adding one. -/
def added? (dim : Nat) : IndexOp → Option I64
  | .add rowid v => if rowid.msb = false ∧ v.length = dim then some rowid else none
  | .remove _ => none

/-- One call on the map. -/
def mapStep (dim : Nat) (m : I64 → Option Vector) : IndexOp → I64 → Option Vector
  | .add rowid v => if rowid.msb = false ∧ v.length = dim then Function.update m rowid (some v)
    else m
  | .remove rowid => Function.update m rowid none

def removedStep (dim : Nat) (removed : Finset I64) : IndexOp → Finset I64
  | .add rowid v => if rowid.msb = false ∧ v.length = dim then removed.erase rowid else removed
  | .remove rowid => insert rowid removed

end IndexOp

open IndexOp

/-- The map the calls describe: the last vector added under each id, unless removed since. -/
def vecOf (dim : Nat) (ops : List IndexOp) : I64 → Option Vector :=
  Run.run (mapStep dim) (fun _ => none) ops

/-- The ids the calls added, one entry for each add. -/
def addedIds (dim : Nat) (ops : List IndexOp) : List I64 := ops.filterMap (added? dim)

/-- The ids whose last call is a `remove`. -/
def removedIds (dim : Nat) (ops : List IndexOp) : Finset I64 := Run.run (removedStep dim) ∅ ops

/-- The index observed through `search` and `len` is the map `m`. -/
structure RefinesMap {D : Type*} [LinearOrder D] (dist : Vector → Vector → D) (knn : Knn D)
    (ix : HnswIndex) (m : I64 → Option Vector) : Prop where
  /-- A hit carries the distance to the vector the map holds for its id. -/
  current : ∀ q k hits, ix.search knn q k = .ok hits → ∀ h ∈ hits, ∃ v, m h.1 = some v ∧
    h.2 = dist q v
  /-- No id is found twice. -/
  nodup : ∀ q k hits, ix.search knn q k = .ok hits → (hits.map Prod.fst).Nodup
  len : ix.len = Set.ncard {id | m id ≠ none}

/-- No live id was added twice, and the adds of dead ids balance the tombstones. -/
structure MapLike (dim : Nat) (ops : List IndexOp) : Prop where
  once : ∀ id, vecOf dim ops id ≠ none → (addedIds dim ops).count id ≤ 1
  balance : ((addedIds dim ops).filter fun id => vecOf dim ops id = none).length =
    (removedIds dim ops).card ∨
    (∀ id, vecOf dim ops id = none) ∧ (addedIds dim ops).length ≤ (removedIds dim ops).card

/-- The index after the calls. -/
def indexOf (dim : Nat) (ops : List IndexOp) : HnswIndex := Run.run apply (HnswIndex.new dim) ops

/-- What the calls leave in the index, in terms of the calls. -/
structure IndexSpec (dim : Nat) (ops : List IndexOp) (ix : HnswIndex) : Prop where
  dim_eq : ix.dim = dim
  ids : ix.points.map Prod.snd = addedIds dim ops
  tombstones : ix.tombstones = removedIds dim ops
  live : ∀ id, vecOf dim ops id ≠ none ↔ ix.Live id
  point : ∀ id v, vecOf dim ops id = some v → (v, id) ∈ ix.points

theorem IndexSpec.step {dim : Nat} {ops : List IndexOp} {ix : HnswIndex} (h : IndexSpec dim ops ix)
    (op : IndexOp) : IndexSpec dim (ops ++ [op]) (apply ix op) := by
  have hvec : vecOf dim (ops ++ [op]) = mapStep dim (vecOf dim ops) op := by
    simp [vecOf, Run.run_append]
  have hrem : removedIds dim (ops ++ [op]) = removedStep dim (removedIds dim ops) op := by
    simp [removedIds, Run.run_append]
  have hadd : addedIds dim (ops ++ [op]) = addedIds dim ops ++ (added? dim op).toList := by
    cases h : added? dim op <;> simp [addedIds, h]
  cases op with
  | add rowid v =>
    by_cases hok : rowid.msb = false ∧ v.length = dim
    · have hix : ix.add rowid v = .ok
          { ix with points := ix.points ++ [(v, rowid)], tombstones := ix.tombstones.erase rowid } :=
        HnswIndex.add_eq_ok.2 ⟨hok.1, by rw [h.dim_eq, hok.2], rfl⟩
      have happly : apply ix (.add rowid v) =
          { ix with points := ix.points ++ [(v, rowid)], tombstones := ix.tombstones.erase rowid } := by
        simp [apply, hix, Except.toOption]
      refine ⟨by rw [happly]; exact h.dim_eq, ?_, ?_, ?_, ?_⟩
      · simp [happly, hadd, added?, hok, h.ids]
      · simp [happly, hrem, removedStep, hok, h.tombstones]
      · intro id
        rw [happly, HnswIndex.live_add hix, hvec, ← h.live]
        by_cases hid : id = rowid
        · simp [mapStep, hok, hid]
        · simp [mapStep, hok, hid]
      · intro id w
        rw [happly, hvec]
        by_cases hid : id = rowid
        · simp [mapStep, hok, hid]
          exact fun hw => .inr hw.symm
        · simp [mapStep, hok, hid]
          exact fun hw => h.point id w hw
    · have happly : apply ix (.add rowid v) = ix := by
        cases hix : ix.add rowid v with
        | error e => simp [apply, hix, Except.toOption]
        | ok ix' =>
          exact absurd ⟨(HnswIndex.add_eq_ok.1 hix).1, h.dim_eq ▸ (HnswIndex.add_eq_ok.1 hix).2.1⟩
            hok
      rw [happly]
      refine ⟨h.dim_eq, ?_, ?_, ?_, ?_⟩
      · simp [hadd, added?, hok, h.ids]
      · simp [hrem, removedStep, hok, h.tombstones]
      · simpa [hvec, mapStep, hok] using h.live
      · simpa [hvec, mapStep, hok] using h.point
  | remove rowid =>
    refine ⟨h.dim_eq, ?_, ?_, ?_, ?_⟩
    · simp [hadd, added?, apply, HnswIndex.remove, h.ids]
    · simp [hrem, removedStep, apply, HnswIndex.remove, h.tombstones]
    · intro id
      rw [show apply ix (.remove rowid) = ix.remove rowid from rfl, HnswIndex.live_remove, hvec,
        ← h.live]
      by_cases hid : id = rowid
      · simp [mapStep, hid]
      · simp [mapStep, hid]
    · intro id w hw
      rw [hvec] at hw
      by_cases hid : id = rowid
      · simp [mapStep, hid] at hw
      · exact h.point id w (by simpa [mapStep, hid] using hw)

theorem indexSpec (dim : Nat) (ops : List IndexOp) : IndexSpec dim ops (indexOf dim ops) := by
  induction ops using List.reverseRecOn with
  | nil => exact ⟨rfl, rfl, rfl, by simp [vecOf, indexOf], by simp [vecOf]⟩
  | append_singleton ops op ih =>
    have := ih.step op
    rwa [show indexOf dim (ops ++ [op]) = apply (indexOf dim ops)
      op by simp [indexOf, Run.run_append]]

section Count

variable {α β : Type*} [DecidableEq β]

theorem count_map_filter_take_le (l : List (β × α)) (p : β × α → Bool) (k : Nat) (b : β) :
    (((l.filter p).take k).map Prod.fst).count b ≤ (l.map Prod.fst).count b :=
  (((List.take_sublist k _).trans List.filter_sublist).map Prod.fst).count_le b

/-- A key that occurs once determines its entry. -/
theorem eq_of_count_le_one {l : List (α × β)} {a a' : α} {b : β}
    (h : (l.map Prod.snd).count b ≤ 1) (ha : (a, b) ∈ l) (ha' : (a', b) ∈ l) : a = a' := by
  induction l with
  | nil => simp at ha
  | cons x l ih =>
    have htail : ∀ {a}, (a, b) ∈ l → 0 < (l.map Prod.snd).count b := fun ha =>
      List.count_pos_iff.2 (List.mem_map.2 ⟨_, ha, rfl⟩)
    rw [List.map_cons, List.count_cons] at h
    rcases List.mem_cons.1 ha with hx | hmem <;> rcases List.mem_cons.1 ha' with hx' | hmem'
    · exact congrArg Prod.fst (hx.trans hx'.symm)
    · have := htail hmem'
      simp [← hx] at h
      omega
    · have := htail hmem
      simp [← hx'] at h
      omega
    · exact ih (by omega) hmem hmem'

end Count

section Search

variable {D : Type*} [LinearOrder D] {dist : Vector → Vector → D} {knn : Knn D} {ix : HnswIndex}
  {q : Vector} {k : Nat} {hits : List (I64 × D)}

/-- A search that succeeds sorts a part of the live neighbours. -/
theorem search_perm (hs : ix.search knn q k = .ok hits) : k = 0 ∧ hits = [] ∨
    hits.Perm (((knn ix.points q (min (k * 2) (k + 32)) (efForSearch k)).filter
      fun n => n.1 ∉ ix.tombstones).take k) := by
  unfold HnswIndex.search at hs
  split at hs
  · cases hs
  · split at hs
    · next h0 =>
      simp only [Except.ok.injEq] at hs
      exact .inl ⟨h0, hs.symm⟩
    · simp only [Except.ok.injEq] at hs
      rw [← hs]
      exact .inr (List.mergeSort_perm ..)

theorem search_mem (hknn : ExactKnn dist knn) (hs : ix.search knn q k = .ok hits) {h : I64 × D}
    (hh : h ∈ hits) : h.1 ∉ ix.tombstones ∧ ∃ w, (w, h.1) ∈ ix.points ∧ h.2 = dist q w := by
  rcases search_perm hs with ⟨-, rfl⟩ | hperm
  · simp at hh
  · obtain ⟨hn, htomb⟩ := List.mem_filter.1 (List.mem_of_mem_take (hperm.mem_iff.1 hh))
    obtain ⟨rest, hrest, -⟩ := hknn ix.points q (min (k * 2) (k + 32)) (efForSearch k)
    obtain ⟨⟨w, id⟩, hp, rfl⟩ := List.mem_map.1 (hrest.mem_iff.1 (List.mem_append_left _ hn))
    exact ⟨by simpa using htomb, w, hp, rfl⟩

theorem search_count_le (hknn : ExactKnn dist knn) (hs : ix.search knn q k = .ok hits) (id : I64) :
    (hits.map Prod.fst).count id ≤ (ix.points.map Prod.snd).count id := by
  rcases search_perm hs with ⟨-, rfl⟩ | hperm
  · simp
  · obtain ⟨rest, hrest, -⟩ := hknn ix.points q (min (k * 2) (k + 32)) (efForSearch k)
    have hpoints := (hrest.map Prod.fst).count_eq id
    rw [List.map_append, List.count_append, List.map_map] at hpoints
    have hfst : (Prod.fst ∘ fun p : Vector × I64 => (p.2, dist q p.1)) = Prod.snd := rfl
    rw [hfst] at hpoints
    rw [(hperm.map Prod.fst).count_eq]
    exact (count_map_filter_take_le _ _ k id).trans (by omega)

/-- A search for as many hits as there are points finds every point of a live id. -/
theorem search_all (hknn : ExactKnn dist knn) (hq : q.length = ix.dim) :
    ∃ hits, ix.search knn q (max 1 ix.points.length) = .ok hits ∧
      ∀ id, id ∉ ix.tombstones →
      (hits.map Prod.fst).count id = (ix.points.map Prod.snd).count id := by
  set k := max 1 ix.points.length with hk
  have hk0 : k ≠ 0 := by omega
  refine ⟨_, by unfold HnswIndex.search; rw [if_neg (by simpa using hq), if_neg hk0], fun id hid => ?_⟩
  obtain ⟨rest, hrest, hlen, -⟩ := hknn ix.points q (min (k * 2) (k + 32)) (efForSearch k)
  have hnil : rest = [] := by
    have := hrest.length_eq
    rw [List.length_append, hlen, List.length_map] at this
    exact List.length_eq_zero_iff.1 (by omega)
  subst hnil
  rw [List.append_nil] at hrest
  have hcount := (hrest.map Prod.fst).count_eq id
  rw [List.map_map] at hcount
  have hfilter : ((knn ix.points q (min (k * 2) (k + 32)) (efForSearch k)).filter
      fun n => n.1 ∉ ix.tombstones).length ≤ k := (List.length_filter_le _ _).trans (by omega)
  rw [List.take_of_length_le hfilter, ((List.mergeSort_perm _ _).map Prod.fst).count_eq]
  rw [show (fun n : I64 × D => decide (n.1 ∉ ix.tombstones)) =
    (fun id => decide (id ∉ ix.tombstones)) ∘ Prod.fst from rfl, ← List.filter_map,
    List.count_filter (by simpa using hid), hcount]
  rfl

end Search

section Len

variable {dim : Nat} {ops : List IndexOp}

/-- Adds of live ids and adds of dead ids. With every live id added once, the former count the live
ids. -/
theorem addedIds_length (honce : ∀ id, vecOf dim ops id ≠ none → (addedIds dim ops).count id ≤ 1) :
    (addedIds dim ops).length = Set.ncard {id | vecOf dim ops id ≠ none} +
      ((addedIds dim ops).filter fun id => vecOf dim ops id = none).length := by
  have hspec := indexSpec dim ops
  have hlive : ((addedIds dim ops).filter fun id => !decide (vecOf dim ops id = none)).length =
      Set.ncard {id | vecOf dim ops id ≠ none} := by
    have hnodup :
        ((addedIds dim ops).filter fun id => !decide (vecOf dim ops id = none)).Nodup := by
      rw [List.nodup_iff_count_le_one]
      intro id
      by_cases hid : vecOf dim ops id = none
      · rw [List.count_eq_zero_of_not_mem (by simp [hid])]
        omega
      · exact (List.filter_sublist.count_le id).trans (honce id hid)
    rw [← List.toFinset_card_of_nodup hnodup, ← Set.ncard_coe_finset]
    congr 1
    ext id
    simp only [List.coe_toFinset, List.mem_filter, Set.mem_ofPred_eq, Bool.not_eq_true',
      decide_eq_false_iff_not, and_iff_right_iff_imp]
    intro hid
    rw [← hspec.ids]
    exact ((hspec.live id).1 hid).1
  have hsplit : (addedIds dim ops).length =
      ((addedIds dim ops).filter fun id => vecOf dim ops id = none).length +
      ((addedIds dim ops).filter fun id => !decide (vecOf dim ops id = none)).length :=
    List.length_eq_length_filter_add _
  omega

theorem len_eq : (indexOf dim ops).len = (addedIds dim ops).length - (removedIds dim ops).card := by
  have hspec := indexSpec dim ops
  rw [HnswIndex.len, hspec.tombstones, ← hspec.ids, List.length_map]

/-- `len` is the number of live ids exactly when the dead adds balance the tombstones. -/
theorem len_eq_iff (honce : ∀ id, vecOf dim ops id ≠ none → (addedIds dim ops).count id ≤ 1) :
    (indexOf dim ops).len = Set.ncard {id | vecOf dim ops id ≠ none} ↔
      ((addedIds dim ops).filter fun id => vecOf dim ops id = none).length =
      (removedIds dim ops).card ∨
      (∀ id, vecOf dim ops id = none) ∧ (addedIds dim ops).length ≤ (removedIds dim ops).card := by
  have hlen := addedIds_length honce
  have hempty : Set.ncard {id | vecOf dim ops id ≠ none} = 0 ↔ ∀ id, vecOf dim ops id = none := by
    have hfin : {id | vecOf dim ops id ≠ none}.Finite := by
      refine (addedIds dim ops).finite_toSet.subset fun id hid => ?_
      rw [← (indexSpec dim ops).ids]
      exact (((indexSpec dim ops).live id).1 hid).1
    rw [Set.ncard_eq_zero hfin, Set.eq_empty_iff_forall_notMem]
    simp
  rw [len_eq, ← hempty]
  omega

end Len

section Refine

variable {D : Type*} [LinearOrder D] {dist : Vector → Vector → D} {knn : Knn D} {dim : Nat}
  {ops : List IndexOp}

/-- A search for every point finds a live id as often as it was added. -/
theorem RefinesMap.mapLike (hknn : ExactKnn dist knn)
    (h : RefinesMap dist knn (indexOf dim ops) (vecOf dim ops)) : MapLike dim ops := by
  have hspec := indexSpec dim ops
  have honce (id : I64) (hid : vecOf dim ops id ≠ none) : (addedIds dim ops).count id ≤ 1 := by
    have hq : (List.replicate (indexOf dim ops).dim (0 : F32)).length = (indexOf dim ops).dim :=
      List.length_replicate
    obtain ⟨hits, hs, hcount⟩ := search_all hknn hq
    rw [← hspec.ids, ← hcount id ((hspec.live id).1 hid).2]
    exact List.nodup_iff_count_le_one.1 (h.nodup _ _ hits hs) id
  exact ⟨honce, (len_eq_iff honce).1 h.len⟩

theorem MapLike.refinesMap (hknn : ExactKnn dist knn) (h : MapLike dim ops) :
    RefinesMap dist knn (indexOf dim ops) (vecOf dim ops) := by
  have hspec := indexSpec dim ops
  -- every hit is a point of a live id, and such an id has one point
  have hone {q : Vector} {k : Nat} {hits : List (I64 × D)} {hit : I64 × D}
      (hs : (indexOf dim ops).search knn q k = .ok hits) (hhit : hit ∈ hits) :
      vecOf dim ops hit.1 ≠ none ∧ ((indexOf dim ops).points.map Prod.snd).count hit.1 ≤ 1 := by
    obtain ⟨htomb, w, hw, -⟩ := search_mem hknn hs hhit
    have hlive := (hspec.live hit.1).2 ⟨List.mem_map.2 ⟨_, hw, rfl⟩, htomb⟩
    exact ⟨hlive, hspec.ids ▸ h.once hit.1 hlive⟩
  refine ⟨fun q k hits hs hit hhit => ?_, fun q k hits hs => ?_, (len_eq_iff h.once).2 h.balance⟩
  · obtain ⟨hlive, hcount⟩ := hone hs hhit
    obtain ⟨-, w, hw, hd⟩ := search_mem hknn hs hhit
    obtain ⟨v, hv⟩ := Option.ne_none_iff_exists'.1 hlive
    have hvec : w = v := eq_of_count_le_one hcount hw (hspec.point _ _ hv)
    exact ⟨v, hv, hvec ▸ hd⟩
  · rw [List.nodup_iff_count_le_one]
    intro id
    by_cases hid : (hits.map Prod.fst).count id = 0
    · omega
    · obtain ⟨hit, hhit, rfl⟩ := List.mem_map.1 (List.count_pos_iff.1 (Nat.pos_of_ne_zero hid))
      exact (search_count_le hknn hs hit.1).trans (hone hs hhit).2

/-- After any calls the index is the map they describe exactly when the calls are `MapLike`. -/
theorem refinesMap_iff (hknn : ExactKnn dist knn) (dim : Nat) (ops : List IndexOp) :
    RefinesMap dist knn (indexOf dim ops) (vecOf dim ops) ↔ MapLike dim ops :=
  ⟨fun h => h.mapLike hknn, fun h => h.refinesMap hknn⟩

end Refine

/-- Exhaustive search. -/
def exhaustiveKnn {D : Type*} [LinearOrder D] (dist : Vector → Vector → D) : Knn D :=
  fun graph q n _ => ((graph.map fun p => (p.2, dist q p.1)).mergeSort fun a b => a.2 ≤ b.2).take n

theorem exhaustiveKnn_exact {D : Type*} [LinearOrder D] (dist : Vector → Vector → D) :
    ExactKnn dist (exhaustiveKnn dist) := by
  intro graph q n ef
  set sorted := (graph.map fun p => (p.2, dist q p.1)).mergeSort fun a b => a.2 ≤ b.2 with hsorted
  have hperm : sorted.Perm (graph.map fun p => (p.2, dist q p.1)) := List.mergeSort_perm ..
  have hpair : sorted.Pairwise fun a b => a.2 ≤ b.2 := by
    have htrans (a b c : I64 × D) (hab : decide (a.2 ≤ b.2)) (hbc : decide (b.2 ≤ c.2)) :
        decide (a.2 ≤ c.2) := by
      simp only [decide_eq_true_eq] at *
      exact hab.trans hbc
    have htotal (a b : I64 × D) : decide (a.2 ≤ b.2) || decide (b.2 ≤ a.2) := by
      simpa using le_total a.2 b.2
    simpa using List.pairwise_mergeSort htrans htotal (graph.map fun p => (p.2, dist q p.1))
  have happ : exhaustiveKnn dist graph q n ef ++ sorted.drop n = sorted :=
    List.take_append_drop n sorted
  refine ⟨sorted.drop n, ?_, ?_, hpair.sublist (List.take_sublist _ _), ?_⟩
  · rw [happ]
    exact hperm
  · rw [exhaustiveKnn, List.length_take, ← hsorted, hperm.length_eq, List.length_map]
  · rw [← happ, List.pairwise_append] at hpair
    exact hpair.2.2

/-- The distance of orthonormal vectors: cosine distance on the vectors used below. -/
def unitDist (q v : Vector) : Nat := if q = v then 0 else 1

/-- The binary32 vectors `(1, 0)` and `(0, 1)`. -/
def e₁ : Vector := [0x3F800000#32, 0]
def e₂ : Vector := [0, 0x3F800000#32]

theorem refinesMap_iff_addRemove :
    RefinesMap unitDist (exhaustiveKnn unitDist) (indexOf 2 [.add 1 e₁, .remove 1, .add 2 e₂])
      (vecOf 2 [.add 1 e₁, .remove 1, .add 2 e₂]) ↔ MapLike 2 [.add 1 e₁, .remove 1, .add 2 e₂] :=
  refinesMap_iff (exhaustiveKnn_exact unitDist) 2 [.add 1 e₁, .remove 1, .add 2 e₂]

/-- Adding id 1 twice, as an update does, leaves both vectors findable under it. -/
theorem readd_not_refinesMap :
    ¬RefinesMap unitDist (exhaustiveKnn unitDist) (indexOf 2 [.add 1 e₁, .add 1 e₂])
      (vecOf 2 [.add 1 e₁, .add 1 e₂]) := fun h =>
  absurd ((h.mapLike (exhaustiveKnn_exact unitDist)).once 1 (by decide)) (by decide)

end Solo
