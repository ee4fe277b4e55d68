import Mathlib.Algebra.Group.Nat.Defs
import Mathlib.Data.Set.Disjoint
import Mathlib.Data.Set.Image
import Mathlib.Data.Set.Lattice
import Mathlib.Order.CompletePartialOrder

/-!
# Ids of the shared index (`hnsw_id.rs`)

One index holds the vectors of episodes and of document chunks. An episode is indexed under its own
rowid, a chunk under its rowid with bit 62 set, so that the two kinds never share an id as long as
rowids stay below `2 ^ 62`. `Rowid` carries that bound, which the source asserts in debug builds.
-/

namespace Solo

/-- An `i64`, in two's complement. -/
abbrev I64 := BitVec 64

instance : LawfulBEq I64 := inferInstance

/-- An SQL rowid inside the range the id encoding is made for. -/
structure Rowid where
  val : Nat
  lt : val < 2 ^ 62
  deriving DecidableEq, Repr

namespace Rowid

@[ext] theorem ext {r r' : Rowid} (h : r.val = r'.val) : r = r' := by
  cases r
  cases r'
  simpa using h

def toI64 (r : Rowid) : I64 := BitVec.ofNat 64 r.val

@[simp] theorem toNat_toI64 (r : Rowid) : r.toI64.toNat = r.val := by
  have := r.lt
  simp only [toI64, BitVec.toNat_ofNat]
  omega

theorem one_lt : 1 < 2 ^ 62 := by decide

theorem two_lt : 2 < 2 ^ 62 := by decide

theorem toI64_injective {r r' : Rowid} (h : r.toI64 = r'.toI64) : r = r' := by
  have := congrArg BitVec.toNat h
  exact Rowid.ext (by simpa using this)

end Rowid

/-- `HNSW_CHUNK_BIT`. -/
def hnswChunkBit : I64 := 1#64 <<< 62

inductive HnswIdKind
  | episode | chunk
  deriving DecidableEq, Repr

def episodeHnswId (episodeRowid : I64) : I64 := episodeRowid

def chunkHnswId (chunkRowid : I64) : I64 := chunkRowid ||| hnswChunkBit

def decodeHnswId (hnswId : I64) : HnswIdKind × I64 :=
  if hnswId &&& hnswChunkBit ≠ 0 then (.chunk, hnswId &&& ~~~hnswChunkBit) else (.episode, hnswId)

theorem Rowid.getElem_of_le (r : Rowid) {i : Nat} (hi : i < 64) (h : 62 ≤ i) :
    r.toI64[i] = false := by
  rw [BitVec.getElem_eq_testBit_toNat, toNat_toI64]
  exact Nat.testBit_lt_two_pow (Nat.lt_of_lt_of_le r.lt (Nat.pow_le_pow_right (by decide) h))

theorem getElem_hnswChunkBit {i : Nat} (hi : i < 64) : hnswChunkBit[i] = decide (i = 62) := by
  revert hi
  have : ∀ i : Fin 64, hnswChunkBit[i.val] = decide (i.val = 62) := by decide
  exact fun hi => this ⟨i, hi⟩

theorem and_hnswChunkBit_ne_zero {x : I64} : x &&& hnswChunkBit ≠ 0 ↔ x[62] = true := by
  constructor
  · intro h
    by_contra hx
    refine h (BitVec.eq_of_getElem_eq fun i hi => ?_)
    rw [BitVec.getElem_and, getElem_hnswChunkBit hi]
    by_cases h62 : i = 62
    · subst h62
      simpa using hx
    · simp [h62]
  · intro h h0
    have : (x &&& hnswChunkBit)[62] = true := by
      rw [BitVec.getElem_and, getElem_hnswChunkBit, h]
      rfl
    simp [h0] at this

@[simp] theorem decode_episodeHnswId (r : Rowid) :
    decodeHnswId (episodeHnswId r.toI64) = (.episode, r.toI64) := by
  unfold decodeHnswId episodeHnswId
  rw [if_neg]
  rw [and_hnswChunkBit_ne_zero, r.getElem_of_le _ (by decide)]
  decide

@[simp] theorem decode_chunkHnswId (r : Rowid) :
    decodeHnswId (chunkHnswId r.toI64) = (.chunk, r.toI64) := by
  unfold decodeHnswId chunkHnswId
  rw [if_pos (by rw [and_hnswChunkBit_ne_zero]; simp [getElem_hnswChunkBit])]
  congr 1
  refine BitVec.eq_of_getElem_eq fun i hi => ?_
  simp only [BitVec.getElem_and, BitVec.getElem_or, BitVec.getElem_not, getElem_hnswChunkBit hi]
  by_cases h62 : i = 62
  · subst h62
    simp [r.getElem_of_le]
  · simp [h62]

theorem eq_of_decode_episode {id r : I64} (h : decodeHnswId id = (.episode, r)) :
    episodeHnswId r = id := by
  unfold decodeHnswId at h
  split at h
  · cases h
  · exact (congrArg Prod.snd h).symm

theorem eq_of_decode_chunk {id r : I64} (h : decodeHnswId id = (.chunk, r)) :
    chunkHnswId r = id := by
  unfold decodeHnswId at h
  split at h
  · next hbit =>
    have hr : r = id &&& ~~~hnswChunkBit := (congrArg Prod.snd h).symm
    have h62 := and_hnswChunkBit_ne_zero.1 hbit
    refine BitVec.eq_of_getElem_eq fun i hi => ?_
    simp only [hr, chunkHnswId, BitVec.getElem_or, BitVec.getElem_and, BitVec.getElem_not,
      getElem_hnswChunkBit hi]
    by_cases hi62 : i = 62
    · subst hi62
      simp [h62]
    · simp [hi62]
  · cases h

theorem episodeHnswId_injective {r r' : Rowid}
    (h : episodeHnswId r.toI64 = episodeHnswId r'.toI64) : r = r' :=
  Rowid.toI64_injective h

theorem chunkHnswId_injective {r r' : Rowid} (h : chunkHnswId r.toI64 = chunkHnswId r'.toI64) :
    r = r' := by
  have := congrArg decodeHnswId h
  simp only [decode_chunkHnswId, Prod.mk.injEq, true_and] at this
  exact Rowid.toI64_injective this

theorem episodeHnswId_ne_chunkHnswId (r r' : Rowid) :
    episodeHnswId r.toI64 ≠ chunkHnswId r'.toI64 := by
  intro h
  have := congrArg decodeHnswId h
  simp at this

theorem episodeHnswId_msb (r : Rowid) : (episodeHnswId r.toI64).msb = false := by
  rw [BitVec.msb_eq_getLsbD_last, BitVec.getLsbD_eq_getElem (by decide)]
  exact r.getElem_of_le _ (by decide)

theorem chunkHnswId_msb (r : Rowid) : (chunkHnswId r.toI64).msb = false := by
  rw [BitVec.msb_eq_getLsbD_last, BitVec.getLsbD_eq_getElem (by decide)]
  simp [chunkHnswId, getElem_hnswChunkBit, r.getElem_of_le]

/-- The ids of a set of episodes and of a set of chunks never meet. -/
theorem disjoint_hnswIds (es cs : Set Rowid) :
    Disjoint ((fun r => episodeHnswId r.toI64) '' es) ((fun r => chunkHnswId r.toI64) '' cs) := by
  rw [Set.disjoint_left]
  rintro _ ⟨r, -, rfl⟩ ⟨r', -, h⟩
  exact episodeHnswId_ne_chunkHnswId r r' h.symm

end Solo
