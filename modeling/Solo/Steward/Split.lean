import Mathlib.Data.List.Perm.Subperm
import Solo.Steward.MergePlan
import Solo.Steward.Components

/-!
# Cutting a component to the cap (`split_component_by_time`)

The chunks of a component are full but for the last one, which goes when it is below the minimum; so
a split keeps every member exactly when the remainder is none or large enough.
-/

namespace Solo

section Chunks

variable {α : Type} {size min : Nat} {l : List α}

theorem chunks_go_eq (hsize : 0 < size) {a b : Nat} (ha : l.length ≤ a) (hb : l.length ≤ b) :
    chunks.go size a l = chunks.go size b l := by
  induction a generalizing b l with
  | zero =>
    obtain rfl := List.eq_nil_of_length_eq_zero (Nat.le_zero.1 ha)
    cases b <;> rfl
  | succ a ih =>
    cases b with
    | zero =>
      obtain rfl := List.eq_nil_of_length_eq_zero (Nat.le_zero.1 hb)
      rfl
    | succ b =>
      rw [chunks.go, chunks.go, ih (b := b)]
      all_goals rw [List.length_drop]; omega

@[simp] theorem chunks_nil : chunks size ([] : List α) = [] := rfl

theorem chunks_of_ne_nil (hsize : 0 < size) (hl : l ≠ []) :
    chunks size l = l.take size :: chunks size (l.drop size) := by
  have hlen := List.length_pos_of_ne_nil hl
  obtain ⟨n, hn⟩ : ∃ n, l.length = n + 1 := ⟨l.length - 1, by omega⟩
  rw [chunks, hn, chunks.go, if_neg (by simpa using hl), chunks]
  congr 1
  refine chunks_go_eq hsize ?_ (Nat.le_refl _)
  rw [List.length_drop]
  omega

/-- A property of the list and of every shorter rest. -/
theorem chunks_induction (hsize : 0 < size) {P : List α → Prop} (hnil : P [])
    (hcons : ∀ l, l ≠ [] → P (l.drop size) → P l) (l : List α) : P l := by
  induction hn : l.length using Nat.strong_induction_on generalizing l with
  | _ n ih =>
    by_cases hl : l = []
    · exact hl ▸ hnil
    · have hlen := List.length_pos_of_ne_nil hl
      refine hcons l hl (ih (l.drop size).length ?_ _ rfl)
      rw [List.length_drop]
      omega

theorem flatten_chunks (hsize : 0 < size) : (chunks size l).flatten = l := by
  induction l using chunks_induction hsize with
  | hnil => rfl
  | hcons l hl ih => rw [chunks_of_ne_nil hsize hl, List.flatten_cons, ih, List.take_append_drop]

theorem length_le_of_mem_chunks (hsize : 0 < size) {c : List α} (hc : c ∈ chunks size l) :
    c.length ≤ size := by
  induction l using chunks_induction hsize with
  | hnil => cases hc
  | hcons l hl ih =>
    rw [chunks_of_ne_nil hsize hl] at hc
    rcases List.mem_cons.1 hc with rfl | hc
    · rw [List.length_take]
      exact Nat.min_le_left _ _
    · exact ih hc

/-- The chunks that reach the minimum. -/
def keptChunks (size min : Nat) (l : List α) : List (List α) :=
  (chunks size l).filter fun chunk => min ≤ chunk.length

theorem flatten_keptChunks_sublist (hsize : 0 < size) :
    (keptChunks size min l).flatten.Sublist l := by
  have hsub : (keptChunks size min l).flatten.Sublist (chunks size l).flatten :=
    List.filter_sublist.flatten
  rwa [flatten_chunks hsize] at hsub

/-- Nothing is cut off when there is no remainder or the remainder reaches the minimum. -/
theorem length_keptChunks_eq_iff (hsize : 0 < size) (hmin : min ≤ size) :
    (keptChunks size min l).flatten.length = l.length ↔ l.length % size = 0 ∨
    min ≤ l.length % size := by
  induction l using chunks_induction hsize with
  | hnil => simp [keptChunks]
  | hcons l hl ih =>
    have hlen := List.length_pos_of_ne_nil hl
    rw [keptChunks, chunks_of_ne_nil hsize hl, List.filter_cons]
    by_cases hfull : size ≤ l.length
    · have htake : (l.take size).length = size := List.length_take_of_le hfull
      rw [htake, if_pos (by simpa using hmin), List.flatten_cons, List.length_append, htake]
      rw [List.length_drop] at ih
      rw [Nat.mod_eq_sub_mod hfull, ← ih, keptChunks]
      omega
    · have htake : l.take size = l := List.take_of_length_le (by omega)
      have hdrop : l.drop size = [] := List.drop_eq_nil_of_le (by omega)
      rw [htake, hdrop, chunks_nil, List.filter_nil, Nat.mod_eq_of_lt (by omega)]
      split
      next hkept => exact iff_of_true (by simp) (.inr (by simpa using hkept))
      next hkept =>
        have hlt : l.length < min := by simpa using hkept
        simp only [List.flatten_nil, List.length_nil]
        omega

end Chunks

theorem StewardConfig.maxSize_pos (cfg : StewardConfig) : 0 < cfg.maxSize :=
  Nat.lt_of_lt_of_le cfg.clusterMinSize_pos (Nat.le_max_right _ _)

theorem StewardConfig.minSize_le_maxSize (cfg : StewardConfig) : cfg.clusterMinSize ≤ cfg.maxSize :=
  Nat.le_max_right _ _

/-- A component of `n` members leaves no remainder below the minimum. -/
def StewardConfig.Fits (cfg : StewardConfig) (n : Nat) : Prop :=
  n % cfg.maxSize = 0 ∨ cfg.clusterMinSize ≤ n % cfg.maxSize

section Split

variable {cfg : StewardConfig} {group : List (ClusterInput × List Float32)}

theorem splitComponentByTime_eq :
    splitComponentByTime cfg group = keptChunks cfg.maxSize cfg.clusterMinSize
    (group.insertionSort Earlier) := rfl

theorem flatten_split_subperm : (splitComponentByTime cfg group).flatten.Subperm group :=
  (flatten_keptChunks_sublist cfg.maxSize_pos).subperm.trans (List.perm_insertionSort _ _).subperm

theorem flatten_split_perm_iff : (splitComponentByTime cfg group).flatten.Perm group ↔
    cfg.Fits group.length := by
  have hlen : (splitComponentByTime cfg group).flatten.length = group.length ↔
      cfg.Fits group.length := by
    have h :=
      length_keptChunks_eq_iff (l := group.insertionSort Earlier)
      cfg.maxSize_pos cfg.minSize_le_maxSize
    rwa [List.length_insertionSort] at h
  rw [← hlen]
  exact ⟨List.Perm.length_eq, fun heq => flatten_split_subperm.perm_of_length_le heq.ge⟩

theorem length_of_mem_split {members : List (ClusterInput × List Float32)}
    (h : members ∈ splitComponentByTime cfg group) :
    cfg.clusterMinSize ≤ members.length ∧ members.length ≤ cfg.maxSize := by
  obtain ⟨hmem, hmin⟩ := List.mem_filter.1 h
  exact ⟨by simpa using hmin, length_le_of_mem_chunks cfg.maxSize_pos hmem⟩

theorem mem_of_mem_split {members : List (ClusterInput × List Float32)}
    (h : members ∈ splitComponentByTime cfg group)
    {x : ClusterInput × List Float32} (hx : x ∈ members) : x ∈ group :=
  flatten_split_subperm.subset (List.mem_flatten_of_mem h hx)

end Split

end Solo
