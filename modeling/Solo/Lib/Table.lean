import Mathlib.Data.List.Pairwise

/-!
# Tables with uniqueness constraints

A table is a list of rows, in insertion order, no two of which clash: `Keyed.clash` says that two
rows violate some uniqueness constraint together. The constraint is a field of `Table`, so that
every table satisfies it; an insert that would break it fails, and an update has to leave the keys
alone. The lemmas give membership after each statement.
-/

/-- Of what is left out of a list, so are the keys. -/
theorem List.map_filterMap_sublist {α β γ : Type} {f : α → Option β} {g : β → γ} {k : α → γ}
    (hf : ∀ a b, f a = some b → g b = k a) (l : List α) :
    ((l.filterMap f).map g).Sublist (l.map k) := by
  induction l with
  | nil => exact .refl _
  | cons a l ih =>
    cases ha : f a with
    | none =>
      rw [List.filterMap_cons_none ha]
      exact ih.cons _
    | some b =>
      rw [List.filterMap_cons_some ha, List.map_cons, List.map_cons, hf a b ha]
      exact ih.cons_cons _

/-- Which rows a uniqueness constraint keeps apart. -/
class Keyed (ρ : Type*) where
  clash : ρ → ρ → Bool
  clash_comm : ∀ a b, clash a b = clash b a

open Keyed

structure Table (ρ : Type*) [Keyed ρ] where
  rows : List ρ
  unique : rows.Pairwise fun a b => clash a b = false

namespace Table

variable {ρ : Type*} [Keyed ρ]

instance : Membership ρ (Table ρ) := ⟨fun t r => r ∈ t.rows⟩

instance [DecidableEq ρ] (t : Table ρ) (r : ρ) : Decidable (r ∈ t) :=
  inferInstanceAs (Decidable (r ∈ t.rows))

@[simp] theorem mem_rows {t : Table ρ} {r : ρ} : r ∈ t.rows ↔ r ∈ t := Iff.rfl

@[ext] theorem ext {t t' : Table ρ} (h : t.rows = t'.rows) : t = t' := by
  cases t
  cases t'
  simpa using h

/-- Rows that clash are the same row. -/
theorem eq_of_clash {t : Table ρ} {a b : ρ} (ha : a ∈ t) (hb : b ∈ t) (h : clash a b = true) :
    a = b := by
  by_contra hne
  have hsymm : Std.Symm fun a b : ρ => clash a b = false := ⟨fun a b h => by rw [clash_comm, h]⟩
  have := t.unique.forall ha hb hne
  simp [h] at this

def empty : Table ρ := ⟨[], List.Pairwise.nil⟩

@[simp] theorem not_mem_empty {r : ρ} : r ∉ (empty : Table ρ) := List.not_mem_nil

def single (r : ρ) : Table ρ := ⟨[r], List.pairwise_singleton _ _⟩

@[simp] theorem mem_single {r a : ρ} : a ∈ single r ↔ a = r := List.mem_singleton

/-- `INSERT`; `none` where a uniqueness constraint fails. -/
def insert? (t : Table ρ) (r : ρ) : Option (Table ρ) :=
  if h : ∀ a ∈ t.rows, clash a r = false then
    some ⟨t.rows ++ [r], List.pairwise_append.2 ⟨t.unique, List.pairwise_singleton _ _,
      fun a ha _ hb => List.mem_singleton.1 hb ▸ h a ha⟩⟩
  else none

theorem insert?_rows {t t' : Table ρ} {r : ρ} (h : t.insert? r = some t') : t'.rows = t.rows ++
    [r] := by
  unfold insert? at h
  split at h
  · rw [← Option.some.inj h]
  · cases h

theorem mem_insert {t t' : Table ρ} {r : ρ} (h : t.insert? r = some t') {a : ρ} :
    a ∈ t' ↔ a ∈ t ∨ a = r := by
  rw [← mem_rows, insert?_rows h]
  simp

theorem insert?_fresh {t t' : Table ρ} {r : ρ} (h : t.insert? r = some t') {a : ρ} (ha : a ∈ t) :
    clash a r = false := by
  unfold insert? at h
  split at h
  · next hfresh => exact hfresh a ha
  · cases h

theorem insert?_eq_none {t : Table ρ} {r : ρ} : t.insert? r = none ↔ ∃ a ∈ t, clash a r = true := by
  unfold insert?
  split
  · next h =>
    simp only [reduceCtorEq, false_iff, not_exists, not_and, Bool.not_eq_true]
    exact h
  · next h => simpa using h

/-- `INSERT OR IGNORE`. -/
def insertOrIgnore (t : Table ρ) (r : ρ) : Table ρ := (t.insert? r).getD t

theorem mem_of_mem_insertOrIgnore {t : Table ρ} {r a : ρ} (h : a ∈ t.insertOrIgnore r) : a ∈ t ∨
    a = r := by
  unfold insertOrIgnore at h
  cases hins : t.insert? r with
  | none =>
    rw [hins] at h
    exact .inl h
  | some t' =>
    rw [hins] at h
    exact (mem_insert hins).1 h

theorem mem_insertOrIgnore_of_mem {t : Table ρ} {r a : ρ} (h : a ∈ t) : a ∈ t.insertOrIgnore r := by
  unfold insertOrIgnore
  cases hins : t.insert? r with
  | none => exact h
  | some t' => exact (mem_insert hins).2 (.inl h)

/-- The ignored row clashes with one that is there. -/
theorem exists_mem_insertOrIgnore (t : Table ρ) (r : ρ) :
    r ∈ t.insertOrIgnore r ∨ ∃ a ∈ t, clash a r = true := by
  unfold insertOrIgnore insert?
  split
  · next h => exact .inl (by simp [← mem_rows])
  · next h =>
    simp only [not_forall, Bool.not_eq_false] at h
    obtain ⟨a, ha, hc⟩ := h
    exact .inr ⟨a, ha, hc⟩

theorem mem_foldl_insertOrIgnore {rows : List ρ} {t : Table ρ} {a : ρ}
    (h : a ∈ rows.foldl insertOrIgnore t) : a ∈ t ∨ a ∈ rows := by
  induction rows generalizing t with
  | nil => exact .inl h
  | cons r rows ih =>
    rcases ih h with h | h
    · rcases mem_of_mem_insertOrIgnore h with h | rfl
      · exact .inl h
      · exact .inr List.mem_cons_self
    · exact .inr (List.mem_cons_of_mem _ h)

theorem mem_foldl_insertOrIgnore_of_mem {rows : List ρ} {t : Table ρ} {a : ρ} (h : a ∈ t) :
    a ∈ rows.foldl insertOrIgnore t :=
  List.foldlRecOn (motive := fun t : Table ρ => a ∈ t) rows insertOrIgnore h fun _ ha _ _ =>
    mem_insertOrIgnore_of_mem ha

/-- Every row of a batch is there afterwards, or a row that it clashes with. -/
theorem exists_mem_foldl_insertOrIgnore {rows : List ρ} {t : Table ρ} {r : ρ} (h : r ∈ rows) :
    r ∈ rows.foldl insertOrIgnore t ∨ ∃ a ∈ rows.foldl insertOrIgnore t, clash a r = true := by
  induction rows generalizing t with
  | nil => cases h
  | cons r' rows ih =>
    rw [List.foldl_cons]
    rcases List.mem_cons.1 h with rfl | h
    · rcases exists_mem_insertOrIgnore t r with hr | ⟨a, ha, hc⟩
      · exact .inl (mem_foldl_insertOrIgnore_of_mem hr)
      · exact .inr ⟨a, mem_foldl_insertOrIgnore_of_mem (mem_insertOrIgnore_of_mem ha), hc⟩
    · exact ih h

/-- `DELETE ... WHERE p`. -/
def deleteWhere (t : Table ρ) (p : ρ → Bool) : Table ρ :=
  ⟨t.rows.filter fun r => !p r, t.unique.sublist List.filter_sublist⟩

@[simp] theorem mem_deleteWhere {t : Table ρ} {p : ρ → Bool} {a : ρ} :
    a ∈ t.deleteWhere p ↔ a ∈ t ∧ p a = false := by
  simp [← mem_rows, deleteWhere]

theorem deleteWhere_deleteWhere (t : Table ρ) (p q : ρ → Bool) :
    (t.deleteWhere p).deleteWhere q = t.deleteWhere fun a => p a || q a := by
  refine Table.ext ?_
  simp only [deleteWhere, List.filter_filter, Bool.not_or, Bool.and_comm]

theorem deleteWhere_eq_self {t : Table ρ} {p : ρ → Bool} (h : ∀ a ∈ t, p a = false) :
    t.deleteWhere p = t := by
  ext1
  exact List.filter_eq_self.2 fun a ha => by simp [h a ha]

/-- A reference to a row that stays. -/
theorem exists_mem_deleteWhere {α : Type*} [DecidableEq α] {t : Table ρ} {p : ρ → Bool} {k : ρ → α}
    {a : α} (h : ∃ r ∈ t, k r = a) (hkept : t.rows.any (fun r => p r && k r = a) = false) :
    ∃ r ∈ t.deleteWhere p, k r = a := by
  obtain ⟨r, hr, hk⟩ := h
  have hnot := List.any_eq_false.1 hkept r hr
  rw [decide_eq_true hk, Bool.and_true] at hnot
  exact ⟨r, mem_deleteWhere.2 ⟨hr, Bool.eq_false_iff.2 hnot⟩, hk⟩

theorem deleteWhere_congr {t : Table ρ} {p q : ρ → Bool} (h : ∀ a ∈ t, p a = q a) :
    t.deleteWhere p = t.deleteWhere q := by
  ext1
  exact List.filter_congr fun a ha => congrArg _ (h a ha)

/-- `UPDATE ... SET f WHERE p`, for an `f` that leaves the keys alone. -/
def updateWhere (t : Table ρ) (p : ρ → Bool) (f : ρ → ρ)
    (hf : ∀ a b, clash (f a) b = clash a b := by intros; rfl) : Table ρ where
  rows := t.rows.map fun r => if p r then f r else r
  unique := by
    have hl (a b : ρ) : clash (if p a then f a else a) b = clash a b := by
      split
      · exact hf a b
      · rfl
    refine List.pairwise_map.2 (t.unique.imp fun {a b} h => ?_)
    rw [hl, clash_comm, hl, clash_comm, h]

theorem mem_updateWhere {t : Table ρ} {p : ρ → Bool} {f : ρ → ρ} {hf} {a : ρ} :
    a ∈ t.updateWhere p f hf ↔ ∃ b ∈ t, (if p b then f b else b) = a := by
  simp [← mem_rows, updateWhere]

theorem updateWhere_eq_self {t : Table ρ} {p : ρ → Bool} {f : ρ → ρ}
    (hf : ∀ a b, clash (f a) b = clash a b)
    (h : ∀ a ∈ t, p a = true → f a = a) : t.updateWhere p f hf = t := by
  ext1
  refine (List.map_congr_left fun a ha => ?_).trans (List.map_id _)
  by_cases hp : p a = true
  · rw [if_pos hp, h a ha hp]
    rfl
  · rw [if_neg hp]
    rfl

theorem countP_updateWhere {t : Table ρ} {p q : ρ → Bool} {f : ρ → ρ} {hf}
    (h : ∀ a ∈ t, p a = true → q (f a) = q a) : (t.updateWhere p f hf).rows.countP q =
    t.rows.countP q := by
  simp only [updateWhere, List.countP_map]
  refine List.countP_congr fun a ha => ?_
  simp only [Function.comp_apply]
  split
  · next hp => rw [h a ha hp]
  · rfl

/-- `UPDATE ... SET f WHERE p`, for an `f` that moves keys; `none` where a uniqueness constraint
fails. -/
def rekeyWhere? (t : Table ρ) (p : ρ → Bool) (f : ρ → ρ) : Option (Table ρ) :=
  let rows := t.rows.map fun r => if p r then f r else r
  if h : rows.Pairwise fun a b => clash a b = false then some ⟨rows, h⟩ else none

theorem rekeyWhere?_eq_some {t t' : Table ρ} {p : ρ → Bool} {f : ρ → ρ} :
    t.rekeyWhere? p f = some t' ↔ t'.rows = t.rows.map fun r => if p r then f r else r := by
  constructor
  · intro h
    unfold rekeyWhere? at h
    dsimp only at h
    split at h
    · rw [← Option.some.inj h]
    · cases h
  · intro h
    have hu := t'.unique
    rw [h] at hu
    unfold rekeyWhere?
    dsimp only
    rw [dif_pos hu]
    exact congrArg some (Table.ext h.symm)

theorem mem_rekeyWhere {t t' : Table ρ} {p : ρ → Bool} {f : ρ → ρ} (h : t.rekeyWhere? p f = some t')
    {a : ρ} : a ∈ t' ↔ ∃ b ∈ t, (if p b then f b else b) = a := by
  rw [← mem_rows, rekeyWhere?_eq_some.1 h]
  simp

/-- Rows that were different do not clash once their keys moved. -/
theorem rekeyWhere?_fresh {t t' : Table ρ} {p : ρ → Bool} {f : ρ → ρ}
    (h : t.rekeyWhere? p f = some t') {a b : ρ} (ha : a ∈ t) (hb : b ∈ t) (hne : a ≠ b) :
    clash (if p a then f a else a) (if p b then f b else b) = false := by
  have huniq := t'.unique
  rw [rekeyWhere?_eq_some.1 h, List.pairwise_map] at huniq
  have hsymm : Std.Symm fun a b : ρ => clash (if p a then f a else a) (if p b then f b else b) =
      false :=
    ⟨fun a b h => by rw [clash_comm, h]⟩
  exact huniq.forall ha hb hne

/-- `INSERT ... ON CONFLICT (..) DO UPDATE SET f`, where `conflict` recognises the row holding the
new row's value of the conflict target. -/
def upsert? (t : Table ρ) (r : ρ) (conflict : ρ → Bool) (f : ρ → ρ)
    (hf : ∀ a b, clash (f a) b = clash a b := by intros; rfl) : Option (Table ρ) :=
  if t.rows.any conflict then some (t.updateWhere conflict f hf) else t.insert? r

theorem upsert?_cases {t t' : Table ρ} {r : ρ} {conflict : ρ → Bool} {f : ρ → ρ} {hf}
    (h : t.upsert? r conflict f hf = some t') :
    (∃ a ∈ t, conflict a = true) ∧ t' = t.updateWhere conflict f hf ∨
      (∀ a ∈ t, conflict a = false) ∧ t.insert? r = some t' := by
  unfold upsert? at h
  split at h
  · next hany =>
    obtain ⟨a, ha, hc⟩ := List.any_eq_true.1 hany
    exact .inl ⟨⟨a, ha, hc⟩, (Option.some.inj h).symm⟩
  · next hany =>
    refine .inr ⟨fun a ha => ?_, h⟩
    by_contra hc
    exact hany (List.any_eq_true.2 ⟨a, ha, by simpa using hc⟩)

section Upsert

variable {t t' : Table ρ} {r a : ρ} {conflict : ρ → Bool} {f : ρ → ρ}
  {hf : ∀ a b, clash (f a) b = clash a b}

/-- A row after an upsert is the new row, an updated one, or an old one off the conflict target. -/
theorem mem_of_mem_upsert (h : t.upsert? r conflict f hf = some t') (ha : a ∈ t') :
    a = r ∨ (∃ b ∈ t, conflict b = true ∧ a = f b) ∨ a ∈ t ∧ conflict a = false := by
  rcases upsert?_cases h with ⟨-, rfl⟩ | ⟨hnone, hins⟩
  · rcases mem_updateWhere.1 ha with ⟨b, hb, rfl⟩
    cases hc : conflict b with
    | true => exact .inr (.inl ⟨b, hb, hc, by simp⟩)
    | false => exact .inr (.inr ⟨by simpa using hb, by simpa using hc⟩)
  · rcases (mem_insert hins).1 ha with hold | rfl
    · exact .inr (.inr ⟨hold, hnone a hold⟩)
    · exact .inl rfl

theorem mem_upsert_of_not (h : t.upsert? r conflict f hf = some t') (ha : a ∈ t)
    (hc : conflict a = false) : a ∈ t' := by
  rcases upsert?_cases h with ⟨-, rfl⟩ | ⟨-, hins⟩
  · exact mem_updateWhere.2 ⟨a, ha, by simp [hc]⟩
  · exact (mem_insert hins).2 (.inl ha)

theorem mem_upsert_of_conflict (h : t.upsert? r conflict f hf = some t') (ha : a ∈ t)
    (hc : conflict a = true) : f a ∈ t' := by
  rcases upsert?_cases h with ⟨-, rfl⟩ | ⟨hnone, -⟩
  · exact mem_updateWhere.2 ⟨a, ha, by simp [hc]⟩
  · simp [hnone a ha] at hc

/-- The row an upsert writes. -/
theorem exists_mem_upsert (h : t.upsert? r conflict f hf = some t') :
    r ∈ t' ∨ ∃ b ∈ t, conflict b = true ∧ f b ∈ t' := by
  rcases upsert?_cases h with ⟨⟨b, hb, hc⟩, rfl⟩ | ⟨-, hins⟩
  · exact .inr ⟨b, hb, hc, mem_updateWhere.2 ⟨b, hb, by simp [hc]⟩⟩
  · exact .inl ((mem_insert hins).2 (.inr rfl))

end Upsert

/-! ### The rows with a property -/

section Filter

variable {t t' : Table ρ} {p q : ρ → Bool} {r : ρ}

theorem filter_insert (h : t.insert? r = some t') : t'.rows.filter p = t.rows.filter p ++
    [r].filter p := by
  rw [insert?_rows h, List.filter_append]

theorem filter_deleteWhere (h : ∀ a ∈ t, p a = true → q a = false) :
    (t.deleteWhere q).rows.filter p = t.rows.filter p := by
  rw [deleteWhere, List.filter_filter]
  refine List.filter_congr fun a ha => ?_
  cases hp : p a with
  | false => rfl
  | true => simp [h a ha hp]

omit [Keyed ρ] in
/-- An update that leaves the rows with `p` alone, and makes no new ones. -/
theorem filter_map_update {l : List ρ} {f : ρ → ρ}
    (h : ∀ a ∈ l, q a = true → p a = false ∧ p (f a) = false) :
    (l.map fun r => if q r then f r else r).filter p = l.filter p := by
  rw [List.filter_map]
  have hpred : ∀ a ∈ l, (p ∘ fun r => if q r then f r else r) a = p a := by
    intro a ha
    rw [Function.comp_apply]
    split
    · next hq => rw [(h a ha hq).1, (h a ha hq).2]
    · rfl
  rw [List.filter_congr hpred]
  conv => rhs; rw [← List.map_id (l.filter p)]
  refine List.map_congr_left fun a ha => ?_
  obtain ⟨ha, hpa⟩ := List.mem_filter.1 ha
  split
  · next hq => exact absurd hpa (by rw [(h a ha hq).1]; simp)
  · rfl

theorem filter_upsert {conflict : ρ → Bool} {f : ρ → ρ} {hf : ∀ a b, clash (f a) b = clash a b}
    (hups : t.upsert? r conflict f hf = some t') (hr : p r = false)
    (h : ∀ a ∈ t, conflict a = true → p a = false ∧ p (f a) = false) :
    t'.rows.filter p = t.rows.filter p := by
  rcases upsert?_cases hups with ⟨-, rfl⟩ | ⟨-, hins⟩
  · exact filter_map_update h
  · rw [filter_insert hins, List.filter_cons_of_neg (by simp [hr]), List.filter_nil,
      List.append_nil]

end Filter

/-- The first row with `p`, as a lookup by key. -/
def find? (t : Table ρ) (p : ρ → Bool) : Option ρ := t.rows.find? p

theorem find?_mem {t : Table ρ} {p : ρ → Bool} {r : ρ} (h : t.find? p = some r) : r ∈ t ∧
    p r = true :=
  ⟨List.mem_of_find?_eq_some h, List.find?_some h⟩

theorem find?_eq_none {t : Table ρ} {p : ρ → Bool} : t.find? p = none ↔ ∀ r ∈ t, p r = false := by
  simp [find?]

instance {t : Table ρ} {P : ρ → Prop} [DecidablePred P] : Decidable (∀ r ∈ t, P r) :=
  inferInstanceAs (Decidable (∀ r ∈ t.rows, P r))

instance {t : Table ρ} {P : ρ → Prop} [DecidablePred P] : Decidable (∃ r ∈ t, P r) :=
  inferInstanceAs (Decidable (∃ r ∈ t.rows, P r))

end Table
