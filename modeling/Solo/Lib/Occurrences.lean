import Mathlib.Data.List.Basic
import Mathlib.Data.List.Nodup
import Mathlib.Data.Nat.Notation

/-!
# Keys that occur more than once

Lists of pairs read as maps. `collect` is the map that is built by inserting the pairs in turn, so
the last pair of a key counts; `first` takes the first one. They agree on a key exactly when it
occurs once, as far as the pairs can be told apart. `distinct` lists the keys in the order in which
they are first seen.
-/

namespace Occurrences

variable {ι β : Type} [DecidableEq ι]

def pushNew (keys : List ι) (k : ι) : List ι := if k ∈ keys then keys else keys ++ [k]

def distinct (l : List ι) : List ι := l.foldl pushNew []

/-- The value of the last pair of a key. -/
def collect (l : List (ι × β)) (k : ι) : Option β := (l.reverse.find? (·.1 = k)).map (·.2)

/-- The value of the first pair of a key. -/
def first (l : List (ι × β)) (k : ι) : Option β := (l.find? (·.1 = k)).map (·.2)

theorem foldl_pushNew (l keys : List ι) :
    (∀ k, k ∈ l.foldl pushNew keys ↔ k ∈ keys ∨ k ∈ l) ∧
    (keys.Nodup → (l.foldl pushNew keys).Nodup) := by
  induction l generalizing keys with
  | nil => simp
  | cons a l ih =>
    obtain ⟨hmem, hnodup⟩ := ih (pushNew keys a)
    rw [List.foldl_cons]
    refine ⟨fun k => ?_, fun h => hnodup ?_⟩
    · rw [hmem]
      unfold pushNew
      split
      · next ha =>
        simp only [List.mem_cons]
        constructor
        · rintro (h | h)
          · exact .inl h
          · exact .inr (.inr h)
        · rintro (h | rfl | h)
          · exact .inl h
          · exact .inl ha
          · exact .inr h
      · simp only [List.mem_append, List.mem_cons, List.not_mem_nil, or_false, or_assoc]
    · unfold pushNew
      split
      · exact h
      · next ha =>
        rw [List.nodup_append]
        refine ⟨h, List.nodup_singleton a, fun b hb c hc hbc => ?_⟩
        obtain rfl := List.mem_singleton.1 hc
        exact ha (hbc ▸ hb)

theorem mem_distinct {l : List ι} {k : ι} : k ∈ distinct l ↔ k ∈ l := by
  rw [distinct, (foldl_pushNew l []).1]
  simp

theorem nodup_distinct (l : List ι) : (distinct l).Nodup := (foldl_pushNew l []).2 List.nodup_nil

theorem first_eq_head? (l : List (ι × β)) (k : ι) :
    first l k = ((l.filter (·.1 = k)).map (·.2)).head? := by
  rw [first, List.head?_map, List.head?_filter]

theorem collect_eq_getLast? (l : List (ι × β)) (k : ι) :
    collect l k = ((l.filter (·.1 = k)).map (·.2)).getLast? := by
  rw [collect, List.getLast?_map, ← List.head?_reverse, ← List.filter_reverse, List.head?_filter]

/-- A key that occurs once has one value. -/
theorem collect_eq_first {l : List (ι × β)} {k : ι} (h : (l.filter (·.1 = k)).length ≤ 1) :
    collect l k = first l k := by
  rw [collect_eq_getLast?, first_eq_head?]
  generalize l.filter (·.1 = k) = m at h
  rcases m with - | ⟨a, - | ⟨b, rest⟩⟩
  · rfl
  · rfl
  · simp only [List.length_cons] at h
    omega

/-- Where a key is unique, at most one element has it. -/
theorem length_filter_le_one {l : List β} {f : β → ι} (h : (l.map f).Nodup) (k : ι) :
    (l.filter (f · = k)).length ≤ 1 := by
  have hcount := List.nodup_iff_count_le_one.1 h k
  rw [List.count_eq_length_filter, List.filter_map, List.length_map] at hcount
  have hsame : l.filter (f · = k) = l.filter ((· == k) ∘ f) :=
    List.filter_congr fun b _ => (beq_eq_decide ..).symm
  rwa [hsame]

theorem find?_eq_some {l : List β} {f : β → ι} (h : (l.map f).Nodup) {k : ι} {b : β} :
    l.find? (f · = k) = some b ↔ b ∈ l ∧ f b = k := by
  have hkey {b : β} (hfind : l.find? (f · = k) = some b) : f b = k := by
    have h := List.find?_some hfind
    exact of_decide_eq_true h
  constructor
  · intro hfind
    exact ⟨List.mem_of_find?_eq_some hfind, hkey hfind⟩
  · rintro ⟨hb, hfb⟩
    have hsome : (l.find? (f · = k)).isSome := List.find?_isSome.2 ⟨b, hb, by simpa using hfb⟩
    obtain ⟨b', hfind⟩ := Option.isSome_iff_exists.1 hsome
    rw [hfind, List.inj_on_of_nodup_map h (List.mem_of_find?_eq_some hfind)
      hb ((hkey hfind).trans hfb.symm)]

/-- Rows collected by a key that is unique among them are found by it. -/
theorem collect_map {l : List β} {f : β → ι} (h : (l.map f).Nodup) (k : ι) :
    collect (l.map fun b => (f b, b)) k = l.find? (f · = k) := by
  have hfilter : ((l.map fun b => (f b, b)).filter (·.1 = k)).map (·.2) = l.filter (f · = k) := by
    rw [List.filter_map, List.map_map]
    exact List.map_id _
  have hone := length_filter_le_one h k
  rw [collect_eq_getLast?, hfilter, ← List.head?_filter]
  generalize l.filter (f · = k) = m at hone
  rcases m with - | ⟨a, - | ⟨b, rest⟩⟩
  · rfl
  · rfl
  · simp only [List.length_cons] at hone
    omega

/-- Where something rises along the list, the last value of a key that occurs again is larger than
the first. -/
theorem first_lt_collect {l : List (ι × β)} {r : β → ℕ} (hl : l.Pairwise fun a b => r a.2 < r b.2)
    {k : ι} (h : 1 < (l.filter (·.1 = k)).length) :
    ∃ v w, first l k = some v ∧ collect l k = some w ∧ r v < r w := by
  have hsub : (l.filter (·.1 = k)).Pairwise fun a b => r a.2 < r b.2 :=
    hl.sublist List.filter_sublist
  rw [collect_eq_getLast?, first_eq_head?]
  generalize l.filter (·.1 = k) = m at h hsub
  rcases m with - | ⟨a, rest⟩
  · simp at h
  · have hne : rest ≠ [] := by
      rintro rfl
      simp at h
    refine ⟨a.2, (rest.getLast hne).2, rfl, ?_, ?_⟩
    · rw [List.getLast?_map, List.getLast?_cons, List.getLast?_eq_getLast_of_ne_nil hne]
      rfl
    · exact (List.pairwise_cons.1 hsub).1 _ (List.getLast_mem hne)

omit [DecidableEq ι] in
/-- The first `k` elements with a property are those with fewer than `k` of them before. -/
theorem mem_take_filter {p : β → Bool} {l : List β} {k : ℕ} {b : β} :
    b ∈ (l.filter p).take k ↔ ∃ i, l[i]? = some b ∧ p b = true ∧
    ((l.take i).filter p).length < k := by
  induction l generalizing k with
  | nil => simp
  | cons a l ih =>
    by_cases ha : p a = true
    · cases k with
      | zero => simp
      | succ k =>
        rw [List.filter_cons_of_pos ha, List.take_succ_cons, List.mem_cons, ih]
        constructor
        · rintro (rfl | ⟨i, hi, hb, hlt⟩)
          · exact ⟨0, rfl, ha, Nat.succ_pos k⟩
          · refine ⟨i + 1, hi, hb, ?_⟩
            rw [List.take_succ_cons, List.filter_cons_of_pos ha, List.length_cons]
            omega
        · rintro ⟨i, hi, hb, hlt⟩
          cases i with
          | zero => exact .inl (Option.some.inj hi).symm
          | succ i =>
            rw [List.take_succ_cons, List.filter_cons_of_pos ha, List.length_cons] at hlt
            exact .inr ⟨i, hi, hb, by omega⟩
    · rw [List.filter_cons_of_neg ha, ih]
      constructor
      · rintro ⟨i, hi, hb, hlt⟩
        refine ⟨i + 1, hi, hb, ?_⟩
        rwa [List.take_succ_cons, List.filter_cons_of_neg ha]
      · rintro ⟨i, hi, hb, hlt⟩
        cases i with
        | zero =>
          obtain rfl : a = b := Option.some.inj hi
          exact absurd hb ha
        | succ i =>
          rw [List.take_succ_cons, List.filter_cons_of_neg ha] at hlt
          exact ⟨i, hi, hb, hlt⟩

end Occurrences
