import Solo.Lib.Selection

/-!
# Paging by key

A page is the first `limit` elements behind a cursor, in the order of a key, and if there are more
its last key is the next cursor. A walk reads page after page. If every page is cut from all that
lies behind its cursor, the walk lists everything (`Walk.flatten_eq`); a page may be cut from less,
as long as the `limit + 1` first are among it (`pageOf_eq_of_kept`).
-/

namespace Keyset

open StableSort

variable {α κ : Type} [LinearOrder κ]

structure Page (α κ : Type) where
  items : List α
  next : Option κ

/-- Whether a key lies behind the cursor. -/
def Behind (cursor : Option κ) (k : κ) : Prop := ∀ c ∈ cursor, c < k

instance (cursor : Option κ) (k : κ) : Decidable (Behind cursor k) := by
  unfold Behind
  infer_instance

/-- The first `limit`, and the key of the last of them if there are more. -/
def cut (key : α → κ) (limit : ℕ) (l : List α) : Page α κ :=
  ⟨l.take limit, if l.length > limit then (l[limit - 1]?).map key else none⟩

/-- The page behind the cursor. -/
def pageOf (key : α → κ) (limit : ℕ) (cursor : Option κ) (l : List α) : Page α κ :=
  cut key limit (sortByKey key (l.filter fun a => Behind cursor (key a)))

/-- Page after page, until one has no next cursor; `answers` says which page a request may be
answered with. -/
inductive Walk (answers : Option κ → Page α κ → Prop) : Option κ → List (List α) → Prop
  | last {cursor : Option κ} {p : Page α κ} (hp : answers cursor p) (h :
    p.next = none) : Walk answers cursor [p.items]
  | more {cursor : Option κ} {p : Page α κ} {k : κ} {pages : List (List α)} (hp : answers cursor p)
      (h : p.next = some k) (rest : Walk answers (some k) pages) :
      Walk answers cursor (p.items :: pages)

omit [LinearOrder κ] in
theorem Walk.imp {answers answers' : Option κ → Page α κ → Prop} {cursor : Option κ}
    {pages : List (List α)}
    (h : ∀ c p, answers c p → answers' c p) (hwalk : Walk answers cursor pages) :
    Walk answers' cursor pages := by
  induction hwalk with
  | last hp hnext => exact .last (h _ _ hp) hnext
  | more hp hnext _ ih => exact .more (h _ _ hp) hnext ih

variable {key : α → κ} {limit : ℕ} {cursor : Option κ} {l l' : List α}

theorem behind_none {k : κ} : Behind none k := by
  intro c hc
  cases hc

theorem behind_some {c k : κ} : Behind (some c) k ↔ c < k := by
  unfold Behind
  simp

/-! ### The cut -/

omit [LinearOrder κ] in
theorem cut_eq_of_take (h : l.take (limit + 1) = l'.take (limit + 1)) (hlimit : 0 < limit) :
    cut key limit l = cut key limit l' := by
  have hitems : l.take limit = l'.take limit := by
    have htake := congrArg (List.take limit) h
    rwa [List.take_take, List.take_take, Nat.min_eq_left (Nat.le_succ limit)] at htake
  have hlength : min (limit + 1) l.length = min (limit + 1) l'.length := by
    rw [← List.length_take, ← List.length_take, h]
  have hlast : l[limit - 1]? = l'[limit - 1]? := by
    rw [← List.getElem?_take_of_lt (show limit - 1 < limit by omega), hitems,
      List.getElem?_take_of_lt (show limit - 1 < limit by omega)]
  have hmore : l.length > limit ↔ l'.length > limit := by omega
  unfold cut
  rw [hitems, hlast]
  by_cases hl : l.length > limit
  · rw [if_pos hl, if_pos (hmore.1 hl)]
  · rw [if_neg hl, if_neg fun h' => hl (hmore.2 h')]

/-- A page with a next cursor is full, and the rest of the list is what lies behind that. -/
theorem cut_next_eq_some {k : κ} (hsorted : l.Pairwise fun a b => key a < key b)
    (hlimit : 0 < limit) (h : (cut key limit l).next = some k) :
    (∃ a ∈ l, key a = k) ∧ limit < l.length ∧ l.drop limit = l.filter fun a => Behind (some k)
    (key a) := by
  unfold cut at h
  dsimp only at h
  by_cases hmore : l.length > limit
  · rw [if_pos hmore, Option.map_eq_some_iff] at h
    obtain ⟨a, ha, rfl⟩ := h
    obtain ⟨hlt, rfl⟩ := List.getElem?_eq_some_iff.1 ha
    refine ⟨⟨_, List.getElem_mem hlt, rfl⟩, hmore, ?_⟩
    have hsplit : l = l.take limit ++ l.drop limit := (List.take_append_drop limit l).symm
    have hfirst : (l.take limit).filter (fun a => Behind (some (key l[limit - 1])) (key a)) =
        [] := by
      refine List.filter_eq_nil_iff.2 fun b hb => ?_
      obtain ⟨i, hi, rfl⟩ := List.getElem_of_mem hb
      rw [List.length_take] at hi
      rw [decide_eq_true_eq, behind_some, List.getElem_take, not_lt]
      rcases Nat.lt_or_ge i (limit - 1) with hlt' | hge
      · exact (List.pairwise_iff_getElem.1 hsorted i (limit - 1) (by omega) hlt hlt').le
      · have heq : i = limit - 1 := by omega
        subst heq
        exact le_refl _
    have hrest : (l.drop limit).filter (fun a => Behind (some (key l[limit - 1])) (key a)) =
        l.drop limit := by
      refine List.filter_eq_self.2 fun b hb => ?_
      obtain ⟨i, hi, rfl⟩ := List.getElem_of_mem hb
      rw [List.length_drop] at hi
      rw [decide_eq_true_eq, behind_some, List.getElem_drop]
      exact List.pairwise_iff_getElem.1 hsorted (limit - 1) (limit + i) hlt (by omega) (by omega)
    have hall := congrArg (List.filter fun a => Behind (some (key l[limit - 1])) (key a)) hsplit
    rw [List.filter_append, hfirst, hrest, List.nil_append] at hall
    exact hall.symm
  · rw [if_neg hmore] at h
    cases h

omit [LinearOrder κ] in
theorem cut_next_eq_none (hlimit : 0 < limit) (h : (cut key limit l).next = none) :
    (cut key limit l).items = l := by
  unfold cut at h ⊢
  dsimp only at h ⊢
  by_cases hmore : l.length > limit
  · rw [if_pos hmore, Option.map_eq_none_iff, List.getElem?_eq_none_iff] at h
    omega
  · exact List.take_of_length_le (by omega)

omit [LinearOrder κ] in
/-- The page of a list cut short is that of the whole list if one element more than the page is
left, or all are. -/
theorem cut_take_eq_iff {n : ℕ} (hlimit : 0 < limit) :
    cut key limit (l.take n) = cut key limit l ↔ limit < n ∨ l.length ≤ n := by
  constructor
  · intro h
    by_contra hnot
    rw [not_or, not_lt, not_le] at hnot
    have hlength : (l.take n).length = n := List.length_take_of_le hnot.2.le
    have hnext := congrArg Page.next h
    have hitems := congrArg (fun p => p.items.length) h
    unfold cut at hnext hitems
    dsimp only at hnext hitems
    rw [List.length_take, hlength, List.length_take] at hitems
    rw [if_neg (by omega), if_pos (by omega),
      List.getElem?_eq_getElem (show limit - 1 < l.length by omega)] at hnext
    cases hnext
  · rintro (hlt | hle)
    · refine cut_eq_of_take ?_ hlimit
      rw [List.take_take, Nat.min_eq_left hlt]
    · rw [List.take_of_length_le hle]

omit [LinearOrder κ] in
/-- Otherwise it is the last page, and short of elements. -/
theorem cut_take_of_le {n : ℕ} (hn : n ≤ limit) (hl : n ≤ l.length) :
    (cut key limit (l.take n)).next = none ∧ (cut key limit (l.take n)).items.length = n := by
  have hlength : (l.take n).length = n := List.length_take_of_le hl
  unfold cut
  dsimp only
  rw [if_neg (by omega), List.length_take, hlength]
  exact ⟨rfl, Nat.min_eq_right hn⟩

/-! ### Walks -/

/-- What a walk lists. -/
theorem Walk.flatten_eq {page : Option κ → Page α κ} {pages : List (List α)}
    (hwalk : Walk (fun c p => p = page c) cursor pages)
    (hsorted : l.Pairwise fun a b => key a < key b) (hlimit : 0 < limit)
    (hpage : ∀ c, (c = cursor ∨ ∃ a ∈ l, c = some (key a)) →
      page c = cut key limit (l.filter fun a => Behind c (key a))) :
    pages.flatten = l.filter fun a => Behind cursor (key a) := by
  induction hwalk with
  | @last cursor p hp h =>
    rw [hp, hpage cursor (.inl rfl)] at h
    rw [hp, hpage cursor (.inl rfl), List.flatten_singleton]
    exact cut_next_eq_none hlimit h
  | @more cursor p k pages hp h rest ih =>
    rw [hp, hpage cursor (.inl rfl)] at h
    obtain ⟨⟨a, ha, hk⟩, -, hdrop⟩ := cut_next_eq_some (hsorted.filter _) hlimit h
    have hbehind : Behind cursor k := by
      rw [← hk]
      exact of_decide_eq_true (List.mem_filter.1 ha).2
    have hrest := ih fun c hc => hpage c (.inr ?_)
    · rw [List.flatten_cons, hrest, hp, hpage cursor (.inl rfl)]
      have hsame :
          (l.filter fun a => Behind cursor (key a)).filter (fun a => Behind (some k) (key a)) =
          l.filter fun a => Behind (some k) (key a) := by
        rw [List.filter_filter]
        refine List.filter_congr fun b _ => ?_
        rw [Bool.and_eq_left_iff_imp, decide_eq_true_eq, decide_eq_true_eq, behind_some]
        exact fun hlt c hc => (hbehind c hc).trans hlt
      rw [← hsame, ← hdrop]
      exact List.take_append_drop _ _
    · rcases hc with rfl | hc
      · exact ⟨a, (List.mem_filter.1 ha).1, by rw [hk]⟩
      · exact hc

/-- A walk ends: each page leaves fewer elements behind its cursor. -/
theorem exists_walk {page : Option κ → Page α κ} (hsorted : l.Pairwise fun a b => key a < key b)
    (hlimit : 0 < limit) (hpage : ∀ c, (c = cursor ∨ ∃ a ∈ l, c = some (key a)) →
      page c = cut key limit (l.filter fun a => Behind c (key a))) :
    ∃ pages, Walk (fun c p => p = page c) cursor pages := by
  induction hn : (l.filter fun a => Behind cursor (key a)).length using Nat.strong_induction_on
    generalizing cursor with
  | _ n ih =>
    have hcut := hpage cursor (.inl rfl)
    cases h : (page cursor).next with
    | none => exact ⟨_, .last rfl h⟩
    | some k =>
      have hnext := h
      rw [hcut] at hnext
      obtain ⟨⟨a, ha, hk⟩, hmore, hdrop⟩ := cut_next_eq_some (hsorted.filter _) hlimit hnext
      have hfewer : (l.filter fun a => Behind (some k) (key a)).length < n := by
        have hsub : (l.filter fun a => Behind (some k) (key a)).length ≤
            ((l.filter fun a => Behind cursor (key a)).filter fun a => Behind (some k)
              (key a)).length := by
          refine (List.Sublist.length_le ?_)
          rw [List.filter_filter]
          refine List.monotone_filter_right _ fun b hb => ?_
          rw [decide_eq_true_eq, behind_some] at hb
          rw [Bool.and_eq_true, decide_eq_true_eq, decide_eq_true_eq, behind_some]
          refine ⟨hb, fun c hc => lt_trans ?_ hb⟩
          rw [← hk]
          exact (of_decide_eq_true (List.mem_filter.1 ha).2 : Behind cursor (key a)) c hc
        rw [← hdrop, List.length_drop] at hsub
        omega
      have hpage' (c : Option κ) (hc : c = some k ∨ ∃ a ∈ l, c = some (key a)) :
          page c = cut key limit (l.filter fun a => Behind c (key a)) := by
        refine hpage c (.inr (hc.elim (fun heq => ?_) id))
        exact ⟨a, (List.mem_filter.1 ha).1, by rw [heq, hk]⟩
      obtain ⟨pages, hpages⟩ := ih _ hfewer hpage' rfl
      exact ⟨_, .more rfl h hpages⟩

/-! ### Pages cut from less -/

/-- A sort of what is kept has the same first elements, if these are kept. -/
theorem take_sortByKey_of_kept {n : ℕ} (hinj : ∀ a ∈ l, ∀ b ∈ l, key a = key b → a = b)
    (hnodup : l.Nodup)
    (hnodup' : l'.Nodup) (hsub : l' ⊆ l) (hkept : ∀ a, Within key n l a → a ∈ l') :
    (sortByKey key l').take n = (sortByKey key l).take n := by
  have hinj' : ∀ a ∈ l', ∀ b ∈ l', key a = key b → a = b :=
    fun a ha b hb => hinj a (hsub ha) b (hsub hb)
  have hmem {a : α} : a ∈ (sortByKey key l').take n ↔ a ∈ (sortByKey key l).take n := by
    rw [mem_take_sortByKey hinj, mem_take_sortByKey hinj']
    constructor
    · rintro ⟨ha, hlt⟩
      refine ⟨hsub ha, ?_⟩
      by_contra hge
      -- the first `n` of `l` are all before `a`, and kept
      have hfirst : ∀ b ∈ (sortByKey key l).take n, b ∈ l'.filter (key · < key a) := by
        intro b hb
        have hwithin := (mem_take_sortByKey hinj).1 hb
        refine List.mem_filter.2 ⟨hkept b hwithin, decide_eq_true ?_⟩
        by_contra hba
        refine hge (lt_of_le_of_lt ?_ hwithin.2)
        refine (List.Sublist.length_le (List.monotone_filter_right l fun c hc => ?_))
        exact decide_eq_true ((of_decide_eq_true hc).trans_le (not_lt.1 hba))
      have hdistinct : ((sortByKey key l).take n).Nodup :=
        (sortByKey_perm.nodup_iff.2 hnodup).sublist (List.take_sublist _ _)
      have hle := (List.subperm_of_subset hdistinct hfirst).length_le
      rw [List.length_take, sortByKey_perm.length_eq] at hle
      have hge' : n ≤ (l.filter (key · < key a)).length := not_lt.1 hge
      have hl := List.length_filter_le (key · < key a) l
      omega
    · rintro hwithin
      refine ⟨hkept a hwithin, lt_of_le_of_lt ?_ hwithin.2⟩
      exact (List.subperm_of_subset (hnodup'.filter _) fun b hb => List.mem_filter.2
        ⟨hsub (List.mem_filter.1 hb).1, (List.mem_filter.1 hb).2⟩).length_le
  have hdistinct {m : List α} (hm : m.Nodup) : ((sortByKey key m).take n).Nodup :=
    (sortByKey_perm.nodup_iff.2 hm).sublist (List.take_sublist _ _)
  have hperm := (List.perm_ext_iff_of_nodup (hdistinct hnodup') (hdistinct hnodup)).2 fun _ => hmem
  have hsorted {m : List α} : ((sortByKey key m).take n).Pairwise fun a b => key a ≤ key b :=
    pairwise_sortByKey.sublist (List.take_sublist _ _)
  refine hperm.eq_of_pairwise (fun a b ha hb hab hba => ?_) hsorted hsorted
  exact hinj a ((mem_take_sortByKey hinj).1 (hmem.1 ha)).1 b ((mem_take_sortByKey hinj).1 hb).1
    (le_antisymm hab hba)

theorem pageOf_eq_of_kept (hlimit : 0 < limit) (hinj : ∀ a ∈ l, ∀ b ∈ l, key a = key b → a = b)
    (hnodup : l.Nodup) (hnodup' : l'.Nodup) (hsub : ∀ a ∈ l', Behind cursor (key a) → a ∈ l)
    (hkept : ∀ a, Within key (limit + 1) (l.filter fun a => Behind cursor (key a)) a → a ∈ l') :
    pageOf key limit cursor l' = pageOf key limit cursor l := by
  refine cut_eq_of_take (take_sortByKey_of_kept ?_ (hnodup.filter _) (hnodup'.filter _) ?_ ?_)
    hlimit
  · exact fun a ha b hb => hinj a (List.mem_of_mem_filter ha) b (List.mem_of_mem_filter hb)
  · intro a ha
    obtain ⟨ha, hbehind⟩ := List.mem_filter.1 ha
    exact List.mem_filter.2 ⟨hsub a ha (of_decide_eq_true hbehind), hbehind⟩
  · exact fun a ha => List.mem_filter.2 ⟨hkept a ha, (List.mem_filter.1 ha.1).2⟩

theorem pageOf_eq_cut : pageOf key limit cursor l =
    cut key limit ((sortByKey key l).filter fun a => Behind cursor (key a)) := by
  refine congrArg _ (eq_of_filter_eq pairwise_sortByKey (pairwise_sortByKey.filter _) fun k => ?_)
  rw [filter_sortByKey, List.filter_comm, List.filter_comm _ _ (sortByKey key l), filter_sortByKey]

theorem pairwise_lt_sortByKey (hdistinct : (l.map key).Nodup) :
    (sortByKey key l).Pairwise fun a b => key a < key b := by
  have hnodup : ((sortByKey key l).map key).Nodup := (sortByKey_perm.map key).nodup_iff.2 hdistinct
  exact (pairwise_sortByKey.and (List.pairwise_map.1 hnodup)).imp fun hab =>
    lt_of_le_of_ne hab.1 hab.2

/-- If every page is cut from the same list, walks from the start end and list it all. -/
theorem walk_pageOf (hdistinct : (l.map key).Nodup) (hlimit : 0 < limit) :
    (∃ pages, Walk (fun c p => p = pageOf key limit c l) none pages) ∧
      ∀ pages, Walk (fun c p => p = pageOf key limit c l) none pages →
      pages.flatten = sortByKey key l := by
  have hsorted := pairwise_lt_sortByKey hdistinct
  refine ⟨exists_walk hsorted hlimit fun c _ => pageOf_eq_cut, fun pages hwalk => ?_⟩
  rw [hwalk.flatten_eq hsorted hlimit fun c _ => pageOf_eq_cut]
  exact List.filter_eq_self.2 fun a _ => decide_eq_true behind_none

/-! ### What every page keeps -/

/-- Whatever a page is cut from, its keys ascend behind the cursor, and the next cursor is not
before them. -/
theorem pageOf_spec : ((pageOf key limit cursor l).items.Pairwise fun a b => key a ≤ key b) ∧
    (∀ a ∈ (pageOf key limit cursor l).items, a ∈ l ∧ Behind cursor (key a)) ∧
    ∀ k ∈ (pageOf key limit cursor l).next, Behind cursor k ∧
    ∀ a ∈ (pageOf key limit cursor l).items, key a ≤ k := by
  have hsorted : (sortByKey key (l.filter fun a => Behind cursor (key a))).Pairwise fun a b =>
      key a ≤ key b :=
    pairwise_sortByKey
  have hmem {a : α} (ha : a ∈ sortByKey key (l.filter fun a => Behind cursor (key a))) : a ∈ l ∧
      Behind cursor (key a) := by
    obtain ⟨ha, hbehind⟩ := List.mem_filter.1 (sortByKey_perm.mem_iff.1 ha)
    exact ⟨ha, of_decide_eq_true hbehind⟩
  refine ⟨hsorted.sublist (List.take_sublist _ _), fun a ha => hmem (List.mem_of_mem_take ha),
    fun k hk => ?_⟩
  have hnext : (cut key limit (sortByKey key (l.filter fun a => Behind cursor (key a)))).next =
      some k := hk
  unfold cut at hnext
  dsimp only at hnext
  split at hnext
  · obtain ⟨b, hb, rfl⟩ := Option.map_eq_some_iff.1 hnext
    obtain ⟨hlt, rfl⟩ := List.getElem?_eq_some_iff.1 hb
    refine ⟨(hmem (List.getElem_mem hlt)).2, fun a ha => ?_⟩
    obtain ⟨i, hi, rfl⟩ := List.getElem_of_mem ha
    have hi' : i < (sortByKey key (l.filter fun a => Behind cursor (key a))).length ∧
        i < limit := by
      have hlen :
          i < min limit (sortByKey key (l.filter fun a => Behind cursor (key a))).length := by
        rw [← List.length_take]
        exact hi
      omega
    have hget : (pageOf key limit cursor l).items[i] =
        (sortByKey key (l.filter fun a => Behind cursor (key a)))[i] := List.getElem_take
    rw [hget]
    rcases Nat.lt_or_ge i (limit - 1) with hlt' | hge
    · exact List.pairwise_iff_getElem.1 hsorted i (limit - 1) hi'.1 hlt hlt'
    · have heq : i = limit - 1 := by omega
      subst heq
      exact le_refl _
  · cases hnext

/-- So a walk lists nothing twice, whatever its pages are cut from. -/
theorem Walk.pairwise_lt {answers : Option κ → Page α κ → Prop} {pages : List (List α)}
    (hwalk : Walk answers cursor pages)
    (hanswers : ∀ c p, answers c p → ∃ l, (l.map key).Nodup ∧ p = pageOf key limit c l) :
    (pages.flatten.Pairwise fun a b => key a < key b) ∧
    ∀ a ∈ pages.flatten, Behind cursor (key a) := by
  have hstrict {c : Option κ} {l : List α} (hl : (l.map key).Nodup) :
      (pageOf key limit c l).items.Pairwise fun a b => key a < key b := by
    have hnodup : ((pageOf key limit c l).items.map key).Nodup := by
      refine (((List.take_sublist _ _).map key).nodup ?_)
      refine (sortByKey_perm.map key).nodup_iff.2 ((List.filter_sublist.map key).nodup hl)
    refine (pageOf_spec.1.and (List.pairwise_map.1 hnodup)).imp fun hab => ?_
    exact lt_of_le_of_ne hab.1 hab.2
  induction hwalk with
  | last hp h =>
    obtain ⟨l, hl, rfl⟩ := hanswers _ _ hp
    rw [List.flatten_singleton]
    exact ⟨hstrict hl, fun a ha => (pageOf_spec.2.1 a ha).2⟩
  | @more cursor p k pages hp h rest ih =>
    obtain ⟨l, hl, rfl⟩ := hanswers _ _ hp
    obtain ⟨hbehind, hle⟩ := pageOf_spec.2.2 k h
    rw [List.flatten_cons]
    refine ⟨List.pairwise_append.2 ⟨hstrict hl, ih.1, fun a ha b hb => ?_⟩, fun a ha => ?_⟩
    · exact (hle a ha).trans_lt (behind_some.1 (ih.2 b hb))
    · rcases List.mem_append.1 ha with ha | ha
      · exact (pageOf_spec.2.1 a ha).2
      · exact fun c hc => (hbehind c hc).trans (behind_some.1 (ih.2 a ha))

end Keyset
