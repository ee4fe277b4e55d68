import Mathlib.Data.List.Basic

/-!
# Union-find (`cluster.rs`)

Parent links with path halving, union by an 8-bit rank. The loop of `find` gets as much fuel as
there are nodes.
-/

namespace Solo

structure UnionFind where
  parent : List Nat
  rank : List (BitVec 8)

namespace UnionFind

def new (n : Nat) : UnionFind := ⟨List.range n, List.replicate n 0⟩

/-- The `while` loop of `find`: the parent links after it, and where it stopped. -/
def findLoop : Nat → List Nat → Nat → List Nat × Nat
  | 0, parent, x => (parent, x)
  | fuel + 1, parent, x =>
    let p := parent.getD x x
    if p = x then (parent, x)
    else
      let parent := parent.set x (parent.getD p p)
      findLoop fuel parent (parent.getD x x)

def find (uf : UnionFind) (x : Nat) : UnionFind × Nat :=
  let (parent, root) := findLoop uf.parent.length uf.parent x
  ({ uf with parent := parent }, root)

def union (uf : UnionFind) (a b : Nat) : UnionFind :=
  let (uf, ra) := uf.find a
  let (uf, rb) := uf.find b
  if ra = rb then uf
  else
    let (small, big) := if uf.rank.getD ra 0 < uf.rank.getD rb 0 then (ra, rb) else (rb, ra)
    ⟨uf.parent.set small big,
      if uf.rank.getD small 0 = uf.rank.getD big 0 then uf.rank.set big (uf.rank.getD big 0 + 1)
        else uf.rank⟩

/-- The pairs `a < b` below `n`, in the order of the two nested loops. -/
def pairs (n : Nat) : List (Nat × Nat) :=
  (List.range n).flatMap fun a => (List.range' (a + 1) (n - (a + 1))).map fun b => (a, b)

/-- Unions every pair that is joined. -/
def unionAll (n : Nat) (joined : Nat → Nat → Bool) : UnionFind :=
  (pairs n).foldl (fun uf p => if joined p.1 p.2 then uf.union p.1 p.2 else uf) (new n)

/-- The answers to `find` for `0`, `1`, ..., in this order. -/
def rootsFrom (uf : UnionFind) : List Nat → List Nat
  | [] => []
  | x :: xs =>
    let (uf, r) := uf.find x
    r :: uf.rootsFrom xs

def roots (n : Nat) (joined : Nat → Nat → Bool) : List Nat :=
  (unionAll n joined).rootsFrom (List.range n)

@[simp] theorem length_rootsFrom {uf : UnionFind} {xs : List Nat} :
    (uf.rootsFrom xs).length = xs.length := by
  induction xs generalizing uf with
  | nil => rfl
  | cons x xs ih => simp [rootsFrom, ih]

@[simp] theorem length_roots {n : Nat} {joined : Nat → Nat → Bool} :
    (roots n joined).length = n := by
  simp [roots]

end UnionFind

end Solo
