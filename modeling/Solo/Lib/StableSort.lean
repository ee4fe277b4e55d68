import Mathlib.Data.List.Sort
import Mathlib.Data.List.Perm.Lattice

/-!
# Sorting by a key

`insertionSort` on `key a ≤ key b` is stable: it keeps the order of the elements of one key. So it
gives the same list for two lists exactly when these agree key by key. And a list that is sorted by
a total order is fixed by its elements.
-/

namespace StableSort

variable {α κ : Type} [LinearOrder κ] (key : α → κ)

/-- The stable sort by `key`. -/
def sortByKey (l : List α) : List α := l.insertionSort fun a b => key a ≤ key b

variable {key}

theorem sortByKey_perm {l : List α} : (sortByKey key l).Perm l := List.perm_insertionSort _ _

theorem pairwise_sortByKey {l : List α} : (sortByKey key l).Pairwise fun a b => key a ≤ key b := by
  have : Std.Total fun a b : α => key a ≤ key b := ⟨fun a b => le_total _ _⟩
  have : IsTrans α fun a b => key a ≤ key b := ⟨fun a b c => le_trans⟩
  exact List.pairwise_insertionSort _ _

/-- The elements of one key keep their order. -/
theorem filter_sortByKey {l : List α} {k : κ} :
    (sortByKey key l).filter (key · = k) = l.filter (key · = k) := by
  have : Std.Total fun a b : α => key a ≤ key b := ⟨fun a b => le_total _ _⟩
  have : IsTrans α fun a b => key a ≤ key b := ⟨fun a b c => le_trans⟩
  have htied : (l.filter (key · = k)).Pairwise fun a b => key a ≤ key b := by
    refine List.pairwise_of_forall_mem_list fun a ha b hb => ?_
    have hka : key a = k := by simpa using (List.mem_filter.1 ha).2
    have hkb : key b = k := by simpa using (List.mem_filter.1 hb).2
    exact (hka.trans hkb.symm).le
  have hsub : (l.filter (key · = k)).Sublist (sortByKey key l) :=
    List.sublist_insertionSort htied List.filter_sublist
  have hsub' := hsub.filter (key · = k)
  simp only [List.filter_filter, Bool.and_self] at hsub'
  refine (hsub'.eq_of_length ?_).symm
  exact (sortByKey_perm.symm.filter _).length_eq

/-- A sorted list is read off its elements key by key. -/
theorem eq_of_filter_eq {l l' : List α} (hl : l.Pairwise fun a b => key a ≤ key b)
    (hl' : l'.Pairwise fun a b => key a ≤ key b)
    (h : ∀ k, l.filter (key · = k) = l'.filter (key · = k)) : l = l' := by
  have hmem {m m' : List α} (hm : ∀ k, m.filter (key · = k) = m'.filter (key · = k)) {a : α}
      (ha : a ∈ m) : a ∈ m' := by
    have hak : a ∈ m.filter (key · = key a) := List.mem_filter.2 ⟨ha, by simp⟩
    rw [hm] at hak
    exact List.mem_of_mem_filter hak
  induction l generalizing l' with
  | nil =>
    cases l' with
    | nil => rfl
    | cons b l' => exact absurd (hmem (fun k => (h k).symm) List.mem_cons_self) List.not_mem_nil
  | cons a l ih =>
    cases l' with
    | nil => exact absurd (hmem h List.mem_cons_self) List.not_mem_nil
    | cons b l' =>
      obtain ⟨ha, hrest⟩ := List.pairwise_cons.1 hl
      obtain ⟨hb, hrest'⟩ := List.pairwise_cons.1 hl'
      have hab : key a ≤ key b := by
        rcases List.mem_cons.1 (hmem (fun k => (h k).symm) List.mem_cons_self : b ∈ a :: l)
          with rfl | hmem
        · exact le_refl _
        · exact ha b hmem
      have hba : key b ≤ key a := by
        rcases List.mem_cons.1 (hmem h List.mem_cons_self : a ∈ b :: l') with rfl | hmem
        · exact le_refl _
        · exact hb a hmem
      have hkey : key a = key b := le_antisymm hab hba
      have hhead := h (key a)
      rw [List.filter_cons_of_pos (by simp), List.filter_cons_of_pos (by simp [hkey])] at hhead
      obtain ⟨rfl, -⟩ := List.cons.inj hhead
      refine congrArg _ (ih hrest hrest' fun k => ?_)
      have hk := h k
      rw [List.filter_cons, List.filter_cons] at hk
      split at hk
      · exact (List.cons.inj hk).2
      · exact hk

/-- Two lists sort to the same list exactly when they agree key by key. -/
theorem sortByKey_eq_iff {l l' : List α} :
    sortByKey key l = sortByKey key l' ↔ ∀ k, l.filter (key · = k) = l'.filter (key · = k) := by
  constructor
  · intro h k
    rw [← filter_sortByKey, h, filter_sortByKey]
  · intro h
    refine eq_of_filter_eq pairwise_sortByKey pairwise_sortByKey fun k => ?_
    rw [filter_sortByKey, filter_sortByKey, h]

/-- A list that is sorted by a key that tells its elements apart is the sort of these. -/
theorem eq_sortByKey {l l' : List α} (hperm : l.Perm l')
    (hsorted : l.Pairwise fun a b => key a ≤ key b)
    (hinj : ∀ a ∈ l, ∀ b ∈ l, key a = key b → a = b) : l = sortByKey key l' := by
  have hsame : l.Perm (sortByKey key l') := hperm.trans sortByKey_perm.symm
  refine hsame.eq_of_pairwise (fun a b ha hb hab hba => ?_) hsorted pairwise_sortByKey
  exact hinj a ha b (hsame.mem_iff.2 hb) (le_antisymm hab hba)

theorem sortByKey_map {β : Type} (f : β → α) (l : List β) :
    sortByKey key (l.map f) = (sortByKey (fun b => key (f b)) l).map f :=
  (List.map_insertionSort _ _ f l fun _ _ _ _ => Iff.rfl).symm

/-- Keys that only grow, and not for the first `n` elements, leave these the first `n`. -/
theorem take_sortByKey {key' : α → κ} {l l' : List α} (hperm : l.Perm l') {n : ℕ}
    (hinj : ∀ a ∈ l, ∀ b ∈ l, key' a = key' b → a = b) (hle : ∀ a ∈ l, key a ≤ key' a)
    (hsame : ∀ a ∈ (sortByKey key l).take n, key' a = key a) :
    (sortByKey key' l').take n = (sortByKey key l).take n := by
  have hsplit : (sortByKey key l).take n ++ (sortByKey key l).drop n = sortByKey key l :=
    List.take_append_drop _ _
  have hsorted : (sortByKey key l).Pairwise fun a b => key a ≤ key b := pairwise_sortByKey
  rw [← hsplit, List.pairwise_append] at hsorted
  obtain ⟨htake, -, hcross⟩ := hsorted
  have hmem {a : α} (ha : a ∈ (sortByKey key l).take n ∨ a ∈ (sortByKey key l).drop n) : a ∈ l := by
    rw [← List.mem_append, hsplit] at ha
    exact sortByKey_perm.mem_iff.1 ha
  have hrest : ((sortByKey key l).take n ++ sortByKey key' ((sortByKey key l).drop n)).Perm l := by
    refine (List.Perm.append_left _ sortByKey_perm).trans ?_
    rw [hsplit]
    exact sortByKey_perm
  have hsort : (sortByKey key l).take n ++ sortByKey key' ((sortByKey key l).drop n) =
      sortByKey key' l' := by
    refine eq_sortByKey (hrest.trans hperm) ?_ fun a ha b hb => hinj a (hrest.mem_iff.1 ha)
      b (hrest.mem_iff.1 hb)
    rw [List.pairwise_append]
    refine ⟨htake.imp_of_mem fun {a b} ha hb hab => ?_, pairwise_sortByKey, fun a ha b hb => ?_⟩
    · rw [hsame a ha, hsame b hb]
      exact hab
    · have hb : b ∈ (sortByKey key l).drop n := sortByKey_perm.mem_iff.1 hb
      rw [hsame a ha]
      exact (hcross a ha b hb).trans (hle b (hmem (.inr hb)))
  rw [← hsort]
  rcases Nat.lt_or_ge (sortByKey key l).length n with hlen | hlen
  · rw [List.drop_of_length_le hlen.le, List.take_of_length_le hlen.le]
    exact (congrArg _ (List.append_nil _)).trans (List.take_of_length_le hlen.le)
  · exact List.take_left' (by rw [List.length_take, min_eq_left hlen])

omit [LinearOrder κ] in
/-- Of blocks at most one of which has an element, the order does not matter. -/
theorem flatten_eq_of_perm {L L' : List (List α)} (h : L.Perm L')
    (hL : L.Pairwise fun a b => a = [] ∨ b = []) : L.flatten = L'.flatten := by
  induction h with
  | nil => rfl
  | cons a _ ih => rw [List.flatten_cons, List.flatten_cons, ih (List.pairwise_cons.1 hL).2]
  | swap a b l =>
    rcases (List.pairwise_cons.1 hL).1 a List.mem_cons_self with rfl | rfl <;> simp
  | trans h _ ih ih' =>
    refine (ih hL).trans (ih' ?_)
    exact (h.pairwise_iff fun hab => hab.symm).1 hL

end StableSort
