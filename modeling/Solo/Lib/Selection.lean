import Mathlib.Data.List.Perm.Basic
import Solo.Lib.StableSort

/-!
# The first elements of a list

`IsFirst key n l r` says that `r` is a choice of the first `n` elements of `l` by a key that need
not tell them apart. A list that has lost elements still yields the first of the whole list as long
as some choice of these was kept (`isFirst_of_kept`).
-/

namespace StableSort

variable {α κ : Type} [LinearOrder κ] {key : α → κ}

def IsFirst (key : α → κ) (n : ℕ) (l r : List α) : Prop :=
  ∃ rest, (r ++ rest).Perm l ∧ r.length = min n l.length ∧ r.Pairwise (fun a b => key a ≤ key b) ∧
    ∀ a ∈ r, ∀ b ∈ rest, key a ≤ key b

/-- An element of the list with fewer than `n` before it. -/
def Within (key : α → κ) (n : ℕ) (l : List α) (a : α) : Prop :=
  a ∈ l ∧ (l.filter (key · < key a)).length < n

theorem isFirst_take_sortByKey (key : α → κ) (n : ℕ) (l : List α) :
    IsFirst key n l ((sortByKey key l).take n) := by
  have hsplit : (sortByKey key l).take n ++ (sortByKey key l).drop n = sortByKey key l :=
    List.take_append_drop _ _
  have hsorted : (sortByKey key l).Pairwise fun a b => key a ≤ key b := pairwise_sortByKey
  rw [← hsplit, List.pairwise_append] at hsorted
  obtain ⟨htake, -, hcross⟩ := hsorted
  refine ⟨(sortByKey key l).drop n, ?_, ?_, htake, hcross⟩
  · rw [hsplit]
    exact sortByKey_perm
  · rw [List.length_take, sortByKey_perm.length_eq]

/-- Where keys tell the elements apart, the first `n` are those with fewer than `n` before them. -/
theorem mem_take_sortByKey {n : ℕ} {l : List α} (hinj : ∀ a ∈ l, ∀ b ∈ l, key a = key b → a = b)
    {a : α} : a ∈ (sortByKey key l).take n ↔ Within key n l a := by
  obtain ⟨rest, hperm, hlength, hsorted, hcross⟩ := isFirst_take_sortByKey key n l
  have hcount : (l.filter (key · < key a)).length =
      (((sortByKey key l).take n).filter (key · < key a)).length +
      (rest.filter (key · < key a)).length := by
    rw [← (hperm.filter _).length_eq, List.filter_append, List.length_append]
  have hmem : a ∈ l ↔ a ∈ (sortByKey key l).take n ∨ a ∈ rest := by
    rw [← hperm.mem_iff, List.mem_append]
  constructor
  · intro ha
    refine ⟨hmem.2 (.inl ha), ?_⟩
    have hrest : rest.filter (key · < key a) = [] := by
      refine List.filter_eq_nil_iff.2 fun b hb => ?_
      rw [decide_eq_true_eq, not_lt]
      exact hcross a ha b hb
    have hlt : (((sortByKey key l).take n).filter (key · < key a)).length <
        ((sortByKey key l).take n).length := by
      refine List.length_filter_lt_length_iff_exists.2 ⟨a, ha, ?_⟩
      simp
    rw [hcount, hrest, List.length_nil]
    omega
  · rintro ⟨ha, hlt⟩
    by_contra hnot
    have hrest : a ∈ rest := (hmem.1 ha).resolve_left hnot
    have hall : ((sortByKey key l).take n).filter (key · < key a) = (sortByKey key l).take n := by
      refine List.filter_eq_self.2 fun b hb =>
        decide_eq_true (lt_of_le_of_ne (hcross b hb a hrest) fun heq => ?_)
      obtain rfl := hinj b (hperm.mem_iff.1 (List.mem_append_left _ hb)) a ha heq
      exact hnot hb
    have hpos : 0 < rest.length := List.length_pos_of_mem hrest
    have htotal := hperm.length_eq
    rw [List.length_append] at htotal
    rw [hcount, hall] at hlt
    omega

/-- What is first among the elements that are kept is first among all, if a choice of these is
kept. -/
theorem isFirst_of_kept {n : ℕ} {l kept lost r best : List α} (hl : l.Nodup)
    (hsplit : (kept ++ lost).Perm l)
    (hr : IsFirst key n kept r) (hbest : IsFirst key n l best) (hin : ∀ a ∈ best, a ∈ kept) :
    IsFirst key n l r := by
  obtain ⟨rest, hperm, hlength, hsorted, hcross⟩ := hr
  obtain ⟨others, hperm', hlength', -, hcross'⟩ := hbest
  have hall : (r ++ (rest ++ lost)).Perm l := by
    rw [← List.append_assoc]
    exact (hperm.append_right lost).trans hsplit
  have hnodup : (best ++ others).Nodup := hperm'.nodup_iff.2 hl
  have hkept : kept.length ≤ l.length := by
    rw [← hsplit.length_eq, List.length_append]
    omega
  have hfit : best.length ≤ kept.length :=
    (List.subperm_of_subset (List.nodup_append.1 hnodup).1 hin).length_le
  have hsame : r.length = min n l.length := by omega
  refine ⟨rest ++ lost, hall, hsame, hsorted, fun a ha b hb => ?_⟩
  rcases List.mem_append.1 hb with hb | hb
  · exact hcross a ha b hb
  by_contra hlt
  have hba : key b < key a := not_le.1 hlt
  -- the lost element is behind all of `best`, and so is `a`, which makes `r` longer than `best`
  have hbefore : ∀ c ∈ best, key c < key a := by
    intro c hc
    have hbl : b ∈ best ++ others :=
      hperm'.mem_iff.2 (hsplit.mem_iff.1 (List.mem_append_right _ hb))
    rcases List.mem_append.1 hbl with hmem | hmem
    · have hdisjoint := (List.nodup_append.1 (hsplit.nodup_iff.2 hl)).2.2
      exact absurd rfl (hdisjoint b (hin b hmem) b hb)
    · exact (hcross' c hc b hmem).trans_lt hba
  have hsub : best ⊆ r.filter (key · < key a) := by
    intro c hc
    refine List.mem_filter.2 ⟨?_, decide_eq_true (hbefore c hc)⟩
    rcases List.mem_append.1 (hperm.mem_iff.2 (hin c hc)) with hmem | hmem
    · exact hmem
    · exact absurd (hcross a ha c hmem) (not_le.2 (hbefore c hc))
  have hle := (List.subperm_of_subset (List.nodup_append.1 hnodup).1 hsub).length_le
  have hlt : (r.filter (key · < key a)).length < r.length :=
    List.length_filter_lt_length_iff_exists.2 ⟨a, ha, by simp⟩
  omega

/-- The first of what is kept are the first of all exactly where everything lost has `n` elements
kept that are not behind it. -/
theorem isFirst_take_kept_iff {n : ℕ} {l kept lost : List α} (hsplit : (kept ++ lost).Perm l) :
    IsFirst key n l ((sortByKey key kept).take n) ↔
    ∀ b ∈ lost, n ≤ kept.countP (key · ≤ key b) := by
  obtain ⟨others, hperm, hlength, hsorted, hcross⟩ := isFirst_take_sortByKey key n kept
  generalize (sortByKey key kept).take n = r at hperm hlength hsorted hcross
  have hall : (r ++ (others ++ lost)).Perm l := by
    rw [← List.append_assoc]
    exact (hperm.append_right lost).trans hsplit
  have hcount (b : α) : kept.countP (key · ≤ key b) = r.countP (key · ≤ key b) +
      others.countP (key · ≤ key b) := by
    rw [← hperm.countP_eq, List.countP_append]
  have htotal := hall.length_eq
  rw [List.length_append, List.length_append] at htotal
  constructor
  · rintro ⟨rest, hperm', hlength', -, hcross'⟩ b hb
    have hrest : b ∈ rest := by
      have hsame : rest.Perm (others ++ lost) :=
        (List.perm_append_left_iff r).1 (hperm'.trans hall.symm)
      exact hsame.mem_iff.2 (List.mem_append_right _ hb)
    have hpos : 0 < lost.length := List.length_pos_of_mem hb
    have hfull : r.countP (key · ≤ key b) = r.length :=
      List.countP_eq_length.2 fun a ha => decide_eq_true (hcross' a ha b hrest)
    rw [hcount, hfull]
    omega
  · intro hlost
    refine ⟨others ++ lost, hall, ?_, hsorted, fun a ha b hb => ?_⟩
    · rcases lost with - | ⟨b, lost⟩
      · rw [List.length_nil] at htotal
        have hkept := hperm.length_eq
        rw [List.length_append] at hkept
        omega
      · have hn := (hlost b List.mem_cons_self).trans List.countP_le_length
        have hkept := hperm.length_eq
        rw [List.length_append] at hkept
        omega
    rcases List.mem_append.1 hb with hb | hb
    · exact hcross a ha b hb
    by_contra hlt
    have hba : key b < key a := not_le.1 hlt
    have hothers : others.countP (key · ≤ key b) = 0 := by
      refine List.countP_eq_zero.2 fun c hc => ?_
      rw [decide_eq_true_eq, not_le]
      exact hba.trans_le (hcross a ha c hc)
    have hr : r.countP (key · ≤ key b) < r.length := by
      refine lt_of_le_of_ne List.countP_le_length fun hfull => hlt ?_
      exact of_decide_eq_true (List.countP_eq_length.1 hfull a ha)
    have hn := hlost b hb
    rw [hcount, hothers] at hn
    omega

/-- The first images are the images of the first elements. -/
theorem isFirst_map {β : Type} {key : β → κ} {f : α → β} {n : ℕ} {l : List α} {r : List β} :
    IsFirst key n (l.map f) r ↔ ∃ r₀, IsFirst (fun a => key (f a)) n l r₀ ∧ r = r₀.map f := by
  constructor
  · rintro ⟨rest, hperm, hlength, hsorted, hcross⟩
    obtain ⟨l₀, heq, hperm₀⟩ : Relation.Comp (· = List.map f ·) List.Perm (r ++ rest) l := by
      rwa [List.eq_map_comp_perm]
    obtain ⟨r₀, rest₀, rfl, rfl, rfl⟩ := List.map_eq_append_iff.1 heq.symm
    rw [List.length_map, List.length_map] at hlength
    rw [List.pairwise_map] at hsorted
    refine ⟨r₀, ⟨rest₀, hperm₀, hlength, hsorted, fun a ha b hb => ?_⟩, rfl⟩
    exact hcross _ (List.mem_map_of_mem ha) _ (List.mem_map_of_mem hb)
  · rintro ⟨r₀, ⟨rest, hperm, hlength, hsorted, hcross⟩, rfl⟩
    refine ⟨rest.map f, ?_, ?_, ?_, fun b hb b' hb' => ?_⟩
    · rw [← List.map_append]
      exact hperm.map f
    · rw [List.length_map, List.length_map, hlength]
    · rw [List.pairwise_map]
      exact hsorted
    · obtain ⟨a, ha, rfl⟩ := List.mem_map.1 hb
      obtain ⟨a', ha', rfl⟩ := List.mem_map.1 hb'
      exact hcross a ha a' ha'

end StableSort
