import Mathlib.Data.List.Basic
import Mathlib.Data.Nat.Notation

/-!
# Text whose characters remember their place

A function on texts that looks at characters only through `Letters.char`, and makes new ones only
with `Letters.ofChar`, can be run on characters that carry their position in an original text
(`marked`). Where a position survives in the result, that character of the original was copied
there. A `Hom` maps one kind of letters to another; forgetting the positions is one, and shifting
them is one.
-/

/-- A kind of characters: how to look at one, and how to make one. -/
structure Letters (α : Type*) where
  char : α → Char
  ofChar : Char → α

namespace Letters

variable {α β : Type*}

def plain : Letters Char := ⟨id, id⟩

/-- A character and its position in the original text, if it comes from there. -/
abbrev Marked := Char × Option ℕ

def marked : Letters Marked := ⟨Prod.fst, fun c => (c, none)⟩

/-- The positions count from `n` on. -/
def shift (n : ℕ) (x : Marked) : Marked := (x.1, x.2.map (n + ·))

structure Hom (L : Letters α) (M : Letters β) (f : α → β) : Prop where
  char : ∀ a, M.char (f a) = L.char a
  ofChar : ∀ c, f (L.ofChar c) = M.ofChar c

theorem Hom.forget : Hom marked plain Prod.fst := ⟨fun _ => rfl, fun _ => rfl⟩

theorem Hom.shift (n : ℕ) : Hom marked marked (shift n) := ⟨fun _ => rfl, fun _ => rfl⟩

theorem Hom.map_char {L : Letters α} {M : Letters β} {f : α → β} (h : Hom L M f) (l : List α) :
    (l.map f).map M.char = l.map L.char := by
  rw [List.map_map]
  exact List.map_congr_left fun a _ => h.char a

/-! ### Slices -/

/-- The characters from position `a` up to `b`. -/
def slice (l : List α) (a b : ℕ) : List α := (l.take b).drop a

theorem map_slice (f : α → β) (l : List α) (a b : ℕ) :
    (slice l a b).map f = slice (l.map f) a b := by
  simp [slice]

/-- The text with each range replaced, from `cursor` on. -/
def splice (l : List α) : ℕ → List (ℕ × ℕ × List α) → List α
  | cursor, [] => l.drop cursor
  | cursor, (start, stop, new) :: rest => slice l cursor start ++ new ++ splice l stop rest

theorem map_splice (f : α → β) (l : List α) (cursor : ℕ) (ranges : List (ℕ × ℕ × List α)) :
    (splice l cursor ranges).map f = splice (l.map f)
    cursor (ranges.map fun r => (r.1, r.2.1, r.2.2.map f)) := by
  induction ranges generalizing cursor with
  | nil => simp [splice]
  | cons r rest ih => simp [splice, ih, map_slice]

theorem mem_slice {l : List α} {a b : ℕ} {x : α} (h : x ∈ slice l a b) : x ∈ l :=
  List.mem_of_mem_take (List.mem_of_mem_drop h)

theorem mem_splice {l : List α} {cursor : ℕ} {ranges : List (ℕ × ℕ × List α)} {x : α}
    (h : x ∈ splice l cursor ranges) : x ∈ l ∨ ∃ r ∈ ranges, x ∈ r.2.2 := by
  induction ranges generalizing cursor with
  | nil => exact .inl (List.mem_of_mem_drop h)
  | cons r rest ih =>
    simp only [splice, List.mem_append] at h
    rcases h with (h | h) | h
    · exact .inl (mem_slice h)
    · exact .inr ⟨r, List.mem_cons_self, h⟩
    · refine (ih h).imp_right ?_
      rintro ⟨r', hr', hx⟩
      exact ⟨r', List.mem_cons_of_mem _ hr', hx⟩

theorem slice_append_left {as bs : List α} {a b : ℕ} (h : b ≤ as.length) :
    slice (as ++ bs) a b = slice as a b := by
  rw [slice, slice, List.take_append_of_le_length h]

theorem slice_append_right (as bs : List α) (a b : ℕ) :
    slice (as ++ bs) (as.length + a) (as.length + b) = slice bs a b := by
  rw [slice, slice, List.take_length_add_append, List.drop_length_add_append]

theorem slice_append_across {as : List α} (bs : List α) {a : ℕ} (b : ℕ) (h : a ≤ as.length) :
    slice (as ++ bs) a (as.length + b) = as.drop a ++ slice bs 0 b := by
  rw [slice, List.take_length_add_append, List.drop_append_of_le_length h, slice, List.drop_zero]

/-- A range of the second text, in the two together. -/
def shiftRange (n : ℕ) (r : ℕ × ℕ × List α) : ℕ × ℕ × List α := (n + r.1, n + r.2.1, r.2.2)

theorem splice_append_right (as bs : List α) (cursor : ℕ) (ranges : List (ℕ × ℕ × List α)) :
    splice (as ++ bs) (as.length + cursor) (ranges.map (shiftRange as.length)) =
    splice bs cursor ranges := by
  induction ranges generalizing cursor with
  | nil => exact List.drop_length_add_append ..
  | cons r rest ih =>
    rw [List.map_cons, splice, splice]
    dsimp only [shiftRange]
    rw [slice_append_right, ih]

/-- Two texts that are spliced one after the other. -/
theorem splice_append {as : List α} (bs : List α) {cursor : ℕ} {ranges : List (ℕ × ℕ × List α)}
    (hcursor : cursor ≤ as.length) (hranges : ∀ r ∈ ranges, r.1 ≤ as.length ∧ r.2.1 ≤ as.length)
    (ranges' : List (ℕ × ℕ × List α)) :
    splice (as ++ bs) cursor (ranges ++ ranges'.map (shiftRange as.length)) =
      splice as cursor ranges ++ splice bs 0 ranges' := by
  induction ranges generalizing cursor with
  | nil =>
    cases ranges' with
    | nil => exact List.drop_append_of_le_length hcursor
    | cons r rest =>
      rw [List.nil_append, List.map_cons, splice, splice, splice]
      dsimp only [shiftRange]
      rw [slice_append_across bs r.1 hcursor, splice_append_right]
      simp only [List.append_assoc]
  | cons r ranges ih =>
    rw [List.forall_mem_cons] at hranges
    rw [List.cons_append, splice, splice, slice_append_left hranges.1.1, ih hranges.1.2 hranges.2]
    simp only [List.append_assoc]

/-! ### Marking a text -/

/-- Each character with its position, counted from `n`. -/
def mark (n : ℕ) (cs : List Char) : List Marked := (cs.zipIdx n).map fun x => (x.1, some x.2)

theorem map_char_mark (n : ℕ) (cs : List Char) : (mark n cs).map marked.char = cs := by
  rw [mark, List.map_map]
  exact List.zipIdx_map_fst n cs

theorem mark_shift (n : ℕ) (cs : List Char) : (mark 0 cs).map (shift n) = mark n cs := by
  rw [mark, mark, List.zipIdx_eq_map_add (i := n), List.map_map, List.map_map]
  refine List.map_congr_left fun x _ => ?_
  simp [shift]

theorem slice_mark (cs : List Char) (a b : ℕ) : slice (mark 0 cs) a b = mark a (slice cs a b) := by
  refine List.ext_getElem? fun i => ?_
  simp only [slice, mark, List.getElem?_drop, List.getElem?_take, List.getElem?_map,
    List.getElem?_zipIdx]
  split
  · simp
  · rfl

/-- The position `p` survives in the text. -/
def Shows (l : List Marked) (p : ℕ) : Prop := ∃ c, (c, some p) ∈ l

instance (l : List Marked) (p : ℕ) : Decidable (Shows l p) :=
  decidable_of_iff (∃ x ∈ l, x.2 = some p) <| by
    constructor
    · rintro ⟨⟨c, q⟩, hx, rfl⟩
      exact ⟨c, hx⟩
    · rintro ⟨c, hc⟩
      exact ⟨_, hc, rfl⟩

theorem shows_mark {cs : List Char} {p : ℕ} : Shows (mark 0 cs) p ↔ p < cs.length := by
  constructor
  · rintro ⟨c, hc⟩
    obtain ⟨x, hx, heq⟩ := List.mem_map.1 hc
    have hlt := List.snd_lt_of_mem_zipIdx hx
    simp only [Prod.mk.injEq, Option.some.injEq] at heq
    omega
  · intro hp
    refine ⟨cs.get ⟨p, hp⟩, List.mem_map.2 ⟨(cs.get ⟨p, hp⟩, p), ?_, rfl⟩⟩
    rw [List.mem_zipIdx_iff_getElem?]
    exact List.getElem?_eq_getElem hp

theorem shows_shift {l : List Marked} {n p : ℕ} : Shows (l.map (shift n)) p ↔ n ≤ p ∧
    Shows l (p - n) := by
  constructor
  · rintro ⟨c, hc⟩
    obtain ⟨⟨c', q⟩, hq, heq⟩ := List.mem_map.1 hc
    cases q with
    | none => simp [shift] at heq
    | some q =>
      simp only [shift, Option.map_some, Prod.mk.injEq, Option.some.injEq] at heq
      obtain ⟨rfl, rfl⟩ := heq
      exact ⟨Nat.le_add_right n q, c', by rw [Nat.add_sub_cancel_left]; exact hq⟩
  · rintro ⟨hle, c, hc⟩
    refine ⟨c, List.mem_map.2 ⟨_, hc, ?_⟩⟩
    simp only [shift, Option.map_some]
    rw [Nat.add_sub_cancel' hle]

end Letters
