import Solo.Lib.Marked

/-!
# Stretches between word boundaries

Stretches of a text of some kind, with no word character next to them, under a replacement of
ranges. What is put in has no character of such a stretch and ends in characters of no word, so the
stretches of the new text are those of the pieces between the ranges. Where the ranges themselves
begin and end with words, these are the stretches that meet no range.
-/

namespace Stretch

open Letters

variable {α : Type} (isWord : α → Bool) (P : List α → Prop)

/-- No word character at this place. -/
def Gap (l : List α) (i : ℕ) : Prop := ∀ c ∈ l[i]?, isWord c = false

/-- A stretch from `a` up to `b` between two boundaries. -/
structure At (l : List α) (a b : ℕ) : Prop where
  lt : a < b
  le : b ≤ l.length
  kind : P (slice l a b)
  left : ∀ i, i + 1 = a → Gap isWord l i
  right : Gap isWord l b

def Has (l : List α) : Prop := ∃ a b, At isWord P l a b

/-- What is left of a text between the ranges, from `cursor` on. -/
def pieces (l : List α) : ℕ → List (ℕ × ℕ) → List (List α)
  | cursor, [] => [l.drop cursor]
  | cursor, (s, e) :: ranges => slice l cursor s :: pieces l e ranges

/-- Ranges one after another, from `cursor` on, that begin and end with words. -/
def Ranges (l : List α) : ℕ → List (ℕ × ℕ) → Prop
  | cursor, [] => cursor ≤ l.length
  | cursor, (s, e) :: ranges => cursor ≤ s ∧ s < e ∧ (∀ i, i + 1 = s → Gap isWord l i) ∧
    Gap isWord l e ∧ Ranges l e ranges

theorem getElem?_slice (l : List α) {a b i : ℕ} (hi : i < b - a) :
    (slice l a b)[i]? = l[a + i]? := by
  rw [slice, List.getElem?_drop, List.getElem?_take_of_lt (by omega)]

theorem length_slice {l : List α} {a b : ℕ} (hb : b ≤ l.length) : (slice l a b).length = b - a := by
  rw [slice, List.length_drop, List.length_take, Nat.min_eq_left hb]

/-- A stretch begins and ends with word characters, and has only some of the characters. -/
structure Kind (ok : α → Bool) : Prop where
  head : ∀ l, P l → ∀ c ∈ l.head?, isWord c = true
  last : ∀ l, P l → ∀ c ∈ l.getLast?, isWord c = true
  chars : ∀ l, P l → ∀ c ∈ l, ok c = true

variable {isWord P}

theorem At.first {ok : α → Bool} (hkind : Kind isWord P ok) {l : List α} {a b : ℕ}
    (h : At isWord P l a b) : ∃ c ∈ l[a]?, isWord c = true := by
  have ha : a < l.length := Nat.lt_of_lt_of_le h.lt h.le
  refine ⟨l[a], List.getElem?_eq_getElem ha, hkind.head _ h.kind _ ?_⟩
  have hlt := h.lt
  rw [List.head?_eq_getElem?, getElem?_slice l (by omega), Nat.add_zero]
  exact List.getElem?_eq_getElem ha

theorem At.final {ok : α → Bool} (hkind : Kind isWord P ok) {l : List α} {a b : ℕ}
    (h : At isWord P l a b) : ∃ c ∈ l[b - 1]?, isWord c = true := by
  have hlt := h.lt
  have hle := h.le
  have hb : b - 1 < l.length := by omega
  refine ⟨l[b - 1], List.getElem?_eq_getElem hb, hkind.last _ h.kind _ ?_⟩
  have hplace : a + (b - a - 1) = b - 1 := by omega
  rw [List.getLast?_eq_getElem?, length_slice hle, getElem?_slice l (by omega), hplace]
  exact List.getElem?_eq_getElem hb

theorem At.mem {ok : α → Bool} (hkind : Kind isWord P ok) {l : List α} {a b i : ℕ}
    (h : At isWord P l a b) (ha : a ≤ i) (hb : i < b) : ∃ c ∈ l[i]?, ok c = true := by
  have hi : i < l.length := Nat.lt_of_lt_of_le hb h.le
  refine ⟨l[i], List.getElem?_eq_getElem hi, hkind.chars _ h.kind _ ?_⟩
  have hplace : a + (i - a) = i := by omega
  have hget : (slice l a b)[i - a]? = some l[i] := by
    rw [getElem?_slice l (by omega), hplace]
    exact List.getElem?_eq_getElem hi
  exact List.mem_of_getElem? hget

theorem slice_eq_of_window {x l : List α} {n a b : ℕ} (hx : ∀ i < x.length, x[i]? = l[n + i]?)
    (hb : b ≤ x.length) : slice x a b = slice l (n + a) (n + b) := by
  refine List.ext_getElem? fun i => ?_
  by_cases hi : i < b - a
  · have hplace : n + (a + i) = n + a + i := by omega
    rw [getElem?_slice x hi, getElem?_slice l (by omega), hx _ (by omega), hplace]
  · have hshort : (slice x a b).length ≤ i := by
      rw [length_slice hb]
      omega
    have hshort' : (slice l (n + a) (n + b)).length ≤ i := by
      rw [slice, List.length_drop, List.length_take]
      omega
    rw [List.getElem?_eq_none hshort, List.getElem?_eq_none hshort']

/-- A stretch of a window is one of the text, when the window's edges are boundaries or no word
stands at them inside. -/
theorem at_window {ok : α → Bool} (hkind : Kind isWord P ok) {x l : List α} {n : ℕ}
    (hx : ∀ i < x.length, x[i]? = l[n + i]?)
    (hn : n + x.length ≤ l.length) (hleft : (∀ i, i + 1 = n → Gap isWord l i) ∨ Gap isWord l n)
    (hright : Gap isWord l (n + x.length) ∨ ∀ i, i + 1 = n + x.length → Gap isWord l i) {a b : ℕ}
    (hb : b ≤ x.length) : At isWord P x a b ↔ At isWord P l (n + a) (n + b) := by
  constructor
  · intro h
    obtain ⟨c, hc, hword⟩ := h.first hkind
    obtain ⟨d, hd, hword'⟩ := h.final hkind
    have hlt := h.lt
    refine ⟨by omega, by omega, slice_eq_of_window hx hb ▸ h.kind, fun i hi => ?_, ?_⟩
    · by_cases ha : a = 0
      · subst ha
        rcases hleft with hleft | hgap
        · exact hleft i hi
        · rw [hx 0 (by omega)] at hc
          rw [hgap c hc] at hword
          cases hword
      · have hplace : n + (a - 1) = i := by omega
        have hgap := h.left (a - 1) (by omega)
        unfold Gap at hgap ⊢
        rw [hx _ (by omega), hplace] at hgap
        exact hgap
    · by_cases hend : b = x.length
      · rcases hright with hright | hgap
        · exact hend ▸ hright
        · rw [hx (b - 1) (by omega)] at hd
          rw [hgap (n + (b - 1)) (by omega) d hd] at hword'
          cases hword'
      · have hgap := h.right
        unfold Gap at hgap ⊢
        rw [hx b (by omega)] at hgap
        exact hgap
  · intro h
    have hlt := h.lt
    refine ⟨by omega, hb, slice_eq_of_window hx hb ▸ h.kind, fun i hi => ?_, ?_⟩
    · have hgap := h.left (n + i) (by omega)
      unfold Gap at hgap ⊢
      rw [hx i (by omega)]
      exact hgap
    · have hgap := h.right
      unfold Gap at hgap ⊢
      by_cases hend : b = x.length
      · rw [hend, List.getElem?_eq_none (Nat.le_refl _)]
        intro c hc
        cases hc
      · rw [hx b (by omega)]
        exact hgap

/-! ### What is put in -/

/-- A text that no stretch meets, and that ends in characters of no word. -/
structure Apart (isWord ok : α → Bool) (new : List α) : Prop where
  ne : new ≠ []
  chars : ∀ c ∈ new, ok c = false
  head : ∀ c ∈ new.head?, isWord c = false
  last : ∀ c ∈ new.getLast?, isWord c = false

theorem has_append {ok : α → Bool} (hkind : Kind isWord P ok) {new : List α}
    (hnew : Apart isWord ok new) (x y : List α) :
    Has isWord P (x ++ new ++ y) ↔ Has isWord P x ∨ Has isWord P y := by
  have hpos : 0 < new.length := List.length_pos_iff.2 hnew.ne
  have hlength : (x ++ new ++ y).length = x.length + new.length + y.length := by
    rw [List.length_append, List.length_append]
  have hx : ∀ i < x.length, x[i]? = (x ++ new ++ y)[0 + i]? := by
    intro i hi
    rw [Nat.zero_add, List.append_assoc, List.getElem?_append_left hi]
  have hy : ∀ i < y.length, y[i]? = (x ++ new ++ y)[x.length + new.length + i]? := by
    intro i hi
    have hplace : x.length + new.length + i - (x ++ new).length = i := by
      rw [List.length_append]
      omega
    rw [List.getElem?_append_right (by rw [List.length_append]; omega), hplace]
  have hmiddle {i : ℕ} (hi : i < new.length) : (x ++ new ++ y)[x.length + i]? = new[i]? := by
    rw [List.append_assoc, List.getElem?_append_right (Nat.le_add_right _ _),
      Nat.add_sub_cancel_left, List.getElem?_append_left hi]
  have hxgap : Gap isWord (x ++ new ++ y) (0 + x.length) := by
    intro c hc
    rw [Nat.zero_add, ← Nat.add_zero x.length, hmiddle hpos, ← List.head?_eq_getElem?] at hc
    exact hnew.head c hc
  have hygap : ∀ i, i + 1 = x.length + new.length → Gap isWord (x ++ new ++ y) i := by
    intro i hi c hc
    have hplace : i = x.length + (new.length - 1) := by omega
    rw [hplace, hmiddle (by omega), ← List.getLast?_eq_getElem?] at hc
    exact hnew.last c hc
  have hzero : ∀ i, i + 1 = 0 → Gap isWord (x ++ new ++ y) i :=
    fun i hi => absurd hi (Nat.succ_ne_zero i)
  have hend : Gap isWord (x ++ new ++ y) (x.length + new.length + y.length) := by
    intro c hc
    rw [List.getElem?_eq_none (Nat.le_of_eq hlength)] at hc
    cases hc
  have hwindow {a b : ℕ} (hb : b ≤ x.length) : At isWord P x a b ↔
      At isWord P (x ++ new ++ y) (0 + a) (0 + b) :=
    at_window hkind hx (by omega) (.inl hzero) (.inl hxgap) hb
  have hwindow' {a b : ℕ} (hb : b ≤ y.length) : At isWord P y a b ↔
      At isWord P (x ++ new ++ y) (x.length + new.length + a) (x.length + new.length + b) :=
    at_window hkind hy (by omega) (.inl hygap) (.inl hend) hb
  constructor
  · rintro ⟨a, b, h⟩
    have hlt := h.lt
    have hle := h.le
    by_cases hb : b ≤ x.length
    · have h' : At isWord P (x ++ new ++ y) (0 + a) (0 + b) := by
        rw [Nat.zero_add, Nat.zero_add]; exact h
      exact .inl ⟨a, b, (hwindow hb).2 h'⟩
    · by_cases ha : x.length + new.length ≤ a
      · obtain ⟨a, rfl⟩ := Nat.exists_eq_add_of_le ha
        obtain ⟨b, rfl⟩ := Nat.exists_eq_add_of_le (Nat.le_trans ha (Nat.le_of_lt hlt))
        exact .inr ⟨a, b, (hwindow' (by omega)).2 h⟩
      · -- a place of the stretch is one of what was put in
        obtain ⟨c, hc, hok⟩ := h.mem hkind (Nat.le_max_left a x.length) (by omega)
        have hplace : max a x.length = x.length + (max a x.length - x.length) := by omega
        rw [hplace, hmiddle (by omega)] at hc
        rw [hnew.chars c (List.mem_of_getElem? hc)] at hok
        cases hok
  · rintro (⟨a, b, h⟩ | ⟨a, b, h⟩)
    · exact ⟨_, _, (hwindow h.le).1 h⟩
    · exact ⟨_, _, (hwindow' h.le).1 h⟩

/-- The stretches of a spliced text are those of the pieces that are left. -/
theorem has_splice {ok : α → Bool} (hkind : Kind isWord P ok) {new : List α}
    (hnew : Apart isWord ok new) (l : List α) (cursor : ℕ) (ranges : List (ℕ × ℕ)) :
    Has isWord P (splice l cursor (ranges.map fun r => (r.1, r.2, new))) ↔
    ∃ x ∈ pieces l cursor ranges, Has isWord P x := by
  induction ranges generalizing cursor with
  | nil =>
    constructor
    · intro h
      exact ⟨_, List.mem_singleton_self _, h⟩
    · rintro ⟨x, hx, h⟩
      obtain rfl := List.mem_singleton.1 hx
      exact h
  | cons r ranges ih =>
    obtain ⟨s, e⟩ := r
    rw [List.map_cons, splice, has_append hkind hnew, ih, pieces]
    dsimp only
    constructor
    · rintro (h | ⟨x, hx, h⟩)
      · exact ⟨_, List.mem_cons_self, h⟩
      · exact ⟨x, List.mem_cons_of_mem _ hx, h⟩
    · rintro ⟨x, hx, h⟩
      rcases List.mem_cons.1 hx with rfl | hx
      · exact .inl h
      · exact .inr ⟨x, hx, h⟩

/-! ### The pieces of a text -/

theorem slice_window {l : List α} {a b : ℕ} (hb : b ≤ l.length) :
    ∀ i < (slice l a b).length, (slice l a b)[i]? = l[a + i]? := by
  intro i hi
  rw [length_slice hb] at hi
  exact getElem?_slice l hi

theorem drop_window (l : List α) (a : ℕ) : ∀ i < (l.drop a).length, (l.drop a)[i]? = l[a + i]? :=
  fun _ _ => List.getElem?_drop

theorem Ranges.le_length {l : List α} {cursor : ℕ} {ranges : List (ℕ × ℕ)}
    (h : Ranges isWord l cursor ranges) : cursor ≤ l.length := by
  induction ranges generalizing cursor with
  | nil => exact h
  | cons r ranges ih =>
    obtain ⟨s, e⟩ := r
    obtain ⟨hs, he, -, -, hrest⟩ := h
    have hlen := ih hrest
    omega

theorem Ranges.le_start {l : List α} {cursor : ℕ} {ranges : List (ℕ × ℕ)}
    (h : Ranges isWord l cursor ranges) : ∀ r ∈ ranges, cursor ≤ r.1 := by
  induction ranges generalizing cursor with
  | nil => exact fun r hr => absurd hr List.not_mem_nil
  | cons r ranges ih =>
    obtain ⟨s, e⟩ := r
    obtain ⟨hs, he, -, -, hrest⟩ := h
    intro r hr
    rcases List.mem_cons.1 hr with rfl | hr
    · exact hs
    · have hle := ih hrest r hr
      omega

theorem Ranges.mono {l : List α} {cursor cursor' : ℕ} {ranges : List (ℕ × ℕ)}
    (hle : cursor' ≤ cursor)
    (h : Ranges isWord l cursor ranges) : Ranges isWord l cursor' ranges := by
  cases ranges with
  | nil => exact Nat.le_trans hle h
  | cons r ranges =>
    obtain ⟨s, e⟩ := r
    obtain ⟨hs, hrest⟩ := h
    exact ⟨Nat.le_trans hle hs, hrest⟩

theorem Ranges.filter {l : List α} {cursor : ℕ} {ranges : List (ℕ × ℕ)}
    (h : Ranges isWord l cursor ranges)
    (p : ℕ × ℕ → Bool) : Ranges isWord l cursor (ranges.filter p) := by
  induction ranges generalizing cursor with
  | nil => exact h
  | cons r ranges ih =>
    obtain ⟨s, e⟩ := r
    obtain ⟨hs, he, hleft, hright, hrest⟩ := h
    have hfilter := ih hrest
    cases hp : p (s, e) with
    | true =>
      rw [List.filter_cons_of_pos hp]
      exact ⟨hs, he, hleft, hright, hfilter⟩
    | false =>
      rw [List.filter_cons_of_neg (by rw [hp]; exact Bool.false_ne_true)]
      exact hfilter.mono (by omega)

theorem slice_append_drop (l : List α) {a b : ℕ} (h : a ≤ b) : slice l a b ++
    l.drop b = l.drop a := by
  obtain ⟨n, rfl⟩ := Nat.exists_eq_add_of_le h
  rw [slice, List.drop_take, Nat.add_sub_cancel_left, ← List.drop_drop, List.take_append_drop]

theorem slice_append (l : List α) {a b c : ℕ} (hab : a ≤ b) (hbc : b ≤ c) : slice l a b ++
    slice l b c = slice l a c := by
  have htake : slice (l.take c) a b = slice l a b := by
    rw [slice, List.take_take, Nat.min_eq_left hbc, slice]
  rw [← htake]
  exact slice_append_drop (l.take c) hab

/-- Up to a place before all ranges, the text is as it was. -/
theorem splice_from {l : List α} {cursor stop : ℕ} {ranges : List (ℕ × ℕ)}
    (h : Ranges isWord l stop ranges) (hle : cursor ≤ stop)
    (new : List α) : splice l cursor (ranges.map fun r => (r.1, r.2, new))
      = slice l cursor stop ++ splice l stop (ranges.map fun r => (r.1, r.2, new)) := by
  cases ranges with
  | nil => exact (slice_append_drop l hle).symm
  | cons r ranges =>
    obtain ⟨s, e⟩ := r
    rw [List.map_cons, splice, splice, ← slice_append l hle h.1, List.append_assoc,
      List.append_assoc, List.append_assoc]

/-- The stretches of the pieces are the stretches that meet no range. -/
theorem has_pieces {ok : α → Bool} (hkind : Kind isWord P ok) {l : List α} {cursor : ℕ}
    {ranges : List (ℕ × ℕ)}
    (hranges : Ranges isWord l cursor ranges)
    (hcursor : (∀ i, i + 1 = cursor → Gap isWord l i) ∨ Gap isWord l cursor) :
    (∃ x ∈ pieces l cursor ranges, Has isWord P x) ↔
      ∃ a b, cursor ≤ a ∧ At isWord P l a b ∧ ∀ r ∈ ranges, b ≤ r.1 ∨ r.2 ≤ a := by
  induction ranges generalizing cursor with
  | nil =>
    have hcursor' : cursor ≤ l.length := hranges
    have hlength : cursor + (l.drop cursor).length = l.length := by
      rw [List.length_drop]
      omega
    have hend : Gap isWord l (cursor + (l.drop cursor).length) := by
      intro c hc
      rw [hlength, List.getElem?_eq_none (Nat.le_refl _)] at hc
      cases hc
    have hwindow {a b : ℕ} (hb : b ≤ (l.drop cursor).length) :
        At isWord P (l.drop cursor) a b ↔ At isWord P l (cursor + a) (cursor + b) :=
      at_window hkind (drop_window l cursor) (by omega) hcursor (.inl hend) hb
    constructor
    · rintro ⟨x, hx, a, b, h⟩
      obtain rfl := List.mem_singleton.1 hx
      exact ⟨_, _, Nat.le_add_right _ _, (hwindow h.le).1 h, fun r hr => absurd hr List.not_mem_nil⟩
    · rintro ⟨a, b, ha, h, -⟩
      have hlt := h.lt
      have hle := h.le
      obtain ⟨a, rfl⟩ := Nat.exists_eq_add_of_le ha
      obtain ⟨b, rfl⟩ := Nat.exists_eq_add_of_le (Nat.le_trans ha (Nat.le_of_lt hlt))
      exact ⟨_, List.mem_singleton_self _, a, b, (hwindow (by omega)).2 h⟩
  | cons r ranges ih =>
    obtain ⟨s, e⟩ := r
    obtain ⟨hs, he, hleft, hright, hrest⟩ := hranges
    have hlen : e ≤ l.length := hrest.le_length
    have hsl : s ≤ l.length := by omega
    have hlength : cursor + (slice l cursor s).length = s := by
      rw [length_slice hsl]
      omega
    have hwindow {a b : ℕ} (hb : b ≤ (slice l cursor s).length) :
        At isWord P (slice l cursor s) a b ↔ At isWord P l (cursor + a) (cursor + b) :=
      at_window hkind (slice_window hsl) (by omega) hcursor (.inr (by rw [hlength]; exact hleft)) hb
    have hrestIff := ih hrest (.inr hright)
    constructor
    · rintro ⟨x, hx, hhas⟩
      rcases List.mem_cons.1 hx with rfl | hx
      · obtain ⟨a, b, h⟩ := hhas
        have hle := h.le
        refine ⟨_, _, Nat.le_add_right _ _, (hwindow hle).1 h, fun r hr => ?_⟩
        rcases List.mem_cons.1 hr with rfl | hr
        · exact .inl (by dsimp only; omega)
        · have hstart := hrest.le_start r hr
          exact .inl (by omega)
      · obtain ⟨a, b, ha, h, hall⟩ := hrestIff.1 ⟨x, hx, hhas⟩
        refine ⟨a, b, by omega, h, fun r hr => ?_⟩
        rcases List.mem_cons.1 hr with rfl | hr
        · exact .inr ha
        · exact hall r hr
    · rintro ⟨a, b, ha, h, hall⟩
      have hlt := h.lt
      obtain ⟨hfirst, hall⟩ := List.forall_mem_cons.1 hall
      rcases hfirst with hb | ha'
      · obtain ⟨a, rfl⟩ := Nat.exists_eq_add_of_le ha
        obtain ⟨b, rfl⟩ := Nat.exists_eq_add_of_le (Nat.le_trans ha (Nat.le_of_lt hlt))
        exact ⟨_, List.mem_cons_self, a, b, (hwindow (by dsimp only at hb; omega)).2 h⟩
      · obtain ⟨x, hx, hhas⟩ := hrestIff.2 ⟨a, b, ha', h, hall⟩
        exact ⟨x, List.mem_cons_of_mem _ hx, hhas⟩

end Stretch
