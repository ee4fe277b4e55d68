import Mathlib.Algebra.Group.Nat.Defs
import Mathlib.Data.List.Induction
import Solo.Steward.Components

/-!
# Runs of union-find

Any calls of `find` and `union` after `new`. Parent links always lead to greater heights, so there
is no cycle in them and the loop of `find` ends at a root; two nodes have one root exactly when the
unions so far connect them. A root of rank `k` has at least `2 ^ k` nodes under it, so no rank gets
near the end of its eight bits.
-/

namespace Solo

namespace UnionFind

open Relation

/-- The loop of `find` without fuel: it ends, at no link that is out of bounds. -/
inductive Ends : List Nat → Nat → List Nat → Nat → Prop
  | done {parent : List Nat} {x : Nat} (h : parent[x]? = some x) : Ends parent x parent x
  | step {parent parent' : List Nat} {x p g r : Nat} (hp : parent[x]? = some p) (hne : p ≠ x) (hg :
    parent[p]? = some g)
      (rest : Ends (parent.set x g) g parent' r) : Ends parent x parent' r

/-- A link from a node to another one. -/
def Link (parent : List Nat) (x y : Nat) : Prop := parent[x]? = some y ∧ y ≠ x

/-- A call on indices below `n`. -/
inductive Op (n : Nat) where
  | find (x : Fin n)
  | union (a b : Fin n)

def Op.apply {n : Nat} (uf : UnionFind) : Op n → UnionFind
  | .find x => (uf.find x).1
  | .union a b => uf.union a b

def run (n : Nat) (ops : List (Op n)) : UnionFind := ops.foldl Op.apply (new n)

/-- The pairs that were given to `union`. -/
def Performed {n : Nat} (ops : List (Op n)) (a b : Nat) : Prop :=
  ∃ i j : Fin n, Op.union i j ∈ ops ∧ a = i ∧ b = j

section

variable {n : Nat} {R : Nat → Nat → Prop} {f h : Nat → Nat} {parent : List Nat}

theorem Inv.getElem? (hinv : Inv n R f h parent) {x : Nat} (hx : x < n) :
    parent[x]? = some (parent.getD x x) := by
  have hlt : x < parent.length := by
    rw [hinv.length]
    exact hx
  rw [List.getD_eq_getElem?_getD, List.getElem?_eq_getElem hlt, Option.getD_some]

theorem findLoop_ends {fuel x : Nat} (hinv : Inv n R f h parent) (hx : x < n)
    (hfuel : n ≤ h x + fuel) :
    Ends parent x (findLoop fuel parent x).1 (findLoop fuel parent x).2 := by
  induction fuel generalizing parent x with
  | zero =>
    have := hinv.lt x hx
    omega
  | succ fuel ih =>
    have hget := hinv.getElem? hx
    rw [findLoop]
    by_cases hp : parent.getD x x = x
    · rw [if_pos hp]
      rw [hp] at hget
      exact .done hget
    · have hpn := hinv.parent_lt x hx
      obtain ⟨hinv', hlt⟩ := hinv.halve hx rfl hp
      have hnext : (parent.set x (parent.getD (parent.getD x x) (parent.getD x x))).getD x x =
          parent.getD (parent.getD x x) (parent.getD x x) := getD_set_eq (hinv.length.symm ▸ hx)
      rw [if_neg hp]
      dsimp only
      rw [hnext]
      exact .step hget hp (hinv.getElem? hpn) (ih hinv' (hinv.parent_lt _ hpn) (by omega))

/-- The loop of `find` ends, with what the model's loop gives. -/
theorem find_ends {uf : UnionFind} {x : Nat} (hinv : Inv n R f h uf.parent) (hx : x < n) :
    Ends uf.parent x (uf.find x).1.parent (uf.find x).2 :=
  findLoop_ends hinv hx (by rw [hinv.length]; exact Nat.le_add_left _ _)

/-- Links lead to greater heights. -/
theorem Inv.height_of_link (hinv : Inv n R f h parent) {x y : Nat} (hlink : Link parent x y) :
    h x < h y := by
  obtain ⟨hget, hne⟩ := hlink
  have hx : x < n := by
    rw [← hinv.length]
    exact (List.getElem?_eq_some_iff.1 hget).1
  have hy : parent.getD x x = y := Option.some.inj ((hinv.getElem? hx).symm.trans hget)
  have hlt := hinv.height x hx (by rw [hy]; exact hne)
  rwa [hy] at hlt

theorem Inv.acyclic (hinv : Inv n R f h parent) (x : Nat) : ¬ TransGen (Link parent) x x := by
  have hlt {y : Nat} (hpath : TransGen (Link parent) x y) : h x < h y := by
    induction hpath with
    | single hlink => exact hinv.height_of_link hlink
    | tail _ hlink ih => exact Nat.lt_trans ih (hinv.height_of_link hlink)
  exact fun hcycle => Nat.lt_irrefl _ (hlt hcycle)

end

/-! ### Ranks -/

/-- The number of the nodes with root `r`. -/
def treeSize (n : Nat) (f : Nat → Nat) (r : Nat) : Nat := (List.range n).countP fun y => f y = r

/-- A rank is paid for by the nodes under its root, and once by all nodes. -/
structure Ranked (n : Nat) (f : Nat → Nat) (rank : List (BitVec 8)) : Prop where
  length : rank.length = n
  root : ∀ r < n, f r = r → 2 ^ (rank.getD r 0).toNat ≤ treeSize n f r
  node : ∀ x < n, 2 ^ (rank.getD x 0).toNat ≤ n

theorem treeSize_le (n : Nat) (f : Nat → Nat) (r : Nat) : treeSize n f r ≤ n := by
  have h := List.countP_le_length (p := fun y => f y = r) (l := List.range n)
  rwa [List.length_range] at h

section

variable {n : Nat} {f : Nat → Nat} {small big : Nat}

/-- A link adds the nodes of the one tree to those of the other. -/
theorem treeSize_linkRoot (hne : small ≠ big) :
    treeSize n (linkRoot f small big) big = treeSize n f small + treeSize n f big := by
  unfold treeSize
  induction List.range n with
  | nil => rfl
  | cons y l ih =>
    simp only [List.countP_cons, ih]
    have hy : (if decide (linkRoot f small big y = big) = true then 1 else 0) =
        (if decide (f y = small) = true then 1 else 0) + if decide (f y = big) =
        true then 1 else 0 := by
      unfold linkRoot
      by_cases hsmall : f y = small
      · have hbig : f y ≠ big := fun heq => hne (hsmall.symm.trans heq)
        simp [hsmall, hne]
      · simp [hsmall]
    omega

theorem treeSize_linkRoot_of_ne {r : Nat} (hsmall : r ≠ small) (hbig : r ≠ big) :
    treeSize n (linkRoot f small big) r = treeSize n f r := by
  refine List.countP_congr fun y _ => ?_
  unfold linkRoot
  by_cases hy : f y = small
  · simp [hy, Ne.symm hbig, Ne.symm hsmall]
  · simp [hy]

theorem Ranked.new (n : Nat) : Ranked n id (List.replicate n 0) := by
  have hrank (x : Nat) : (List.replicate n (0 : BitVec 8)).getD x 0 = 0 := by
    rw [List.getD_eq_getElem?_getD, List.getElem?_replicate]
    split_ifs <;> rfl
  refine ⟨List.length_replicate, fun r hr _ => ?_, fun x hx => ?_⟩
  · rw [hrank, treeSize]
    exact List.countP_pos_iff.2 ⟨r, List.mem_range.2 hr, decide_eq_true rfl⟩
  · rw [hrank]
    exact Nat.one_le_of_lt hx

/-- A rank that is paid for by less than `2 ^ 64` nodes can be raised. -/
theorem toNat_add_one {n : Nat} (hn : n < 2 ^ 64) {k : BitVec 8} (hk : 2 ^ k.toNat ≤ n) :
    k.toNat < 64 ∧ (k + 1).toNat = k.toNat + 1 := by
  have hlt : k.toNat < 64 := (Nat.pow_lt_pow_iff_right Nat.one_lt_two).1 (Nat.lt_of_le_of_lt hk hn)
  refine ⟨hlt, ?_⟩
  rw [BitVec.toNat_add]
  exact Nat.mod_eq_of_lt (by simp; omega)

theorem Ranked.link {R : Nat → Nat → Prop} {uf uf' : UnionFind} (hranked : Ranked n f uf.rank)
    (hn : n < 2 ^ 64)
    (hlinked : Linked n R f uf uf' small big) : Ranked n (linkRoot f small big) uf'.rank := by
  obtain ⟨hsmall, hbig, hfs, hfb, hne, -, hle, hrank⟩ := hlinked
  have hpaid : 2 ^ (uf.rank.getD small 0).toNat ≤ treeSize n f small :=
    hranked.root small hsmall hfs
  have hpaid' : 2 ^ (uf.rank.getD big 0).toNat ≤ treeSize n f big := hranked.root big hbig hfb
  -- the new rank of the root
  have hself : 2 ^ (uf'.rank.getD big 0).toNat ≤ treeSize n (linkRoot f small big) big := by
    rw [treeSize_linkRoot hne, hrank]
    by_cases heq : uf.rank.getD small 0 = uf.rank.getD big 0
    · rw [if_pos heq, getD_set_eq (hranked.length.symm ▸ hbig),
        (toNat_add_one hn (hranked.node big hbig)).2, Nat.pow_succ]
      rw [heq] at hpaid
      omega
    · rw [if_neg heq]
      omega
  have hother {x : Nat} (hx : x ≠ big) : uf'.rank.getD x 0 = uf.rank.getD x 0 := by
    rw [hrank]
    by_cases heq : uf.rank.getD small 0 = uf.rank.getD big 0
    · rw [if_pos heq, getD_set_ne (Ne.symm hx)]
    · rw [if_neg heq]
  refine ⟨?_, fun r hr hroot => ?_, fun x hx => ?_⟩
  · rw [hrank]
    split_ifs
    · rw [List.length_set, hranked.length]
    · exact hranked.length
  · by_cases hrb : r = big
    · rw [hrb]
      exact hself
    have hrs : r ≠ small := by
      rintro rfl
      rw [linkRoot, if_pos hfs] at hroot
      exact hne hroot.symm
    have hfr : f r = r := by
      unfold linkRoot at hroot
      split_ifs at hroot with hfr
      · exact absurd hroot.symm hrb
      · exact hroot
    rw [hother hrb, treeSize_linkRoot_of_ne hrs hrb]
    exact hranked.root r hr hfr
  · by_cases hxb : x = big
    · rw [hxb]
      exact Nat.le_trans hself (treeSize_le _ _ _)
    · rw [hother hxb]
      exact hranked.node x hx

end

/-! ### Runs -/

/-- What holds after every run. -/
def Forest {n : Nat} (ops : List (Op n)) (f : Nat → Nat) (uf : UnionFind) : Prop :=
  (∃ h, Inv n (Performed ops) f h uf.parent) ∧ Ranked n f uf.rank

theorem performed_find {n : Nat} (ops : List (Op n)) (x : Fin n) :
    Performed (ops ++ [.find x]) = Performed ops := by
  funext a b
  refine propext ⟨?_, ?_⟩
  · rintro ⟨i, j, hmem, rfl, rfl⟩
    rcases List.mem_append.1 hmem with hmem | hmem
    · exact ⟨i, j, hmem, rfl, rfl⟩
    · cases List.mem_singleton.1 hmem
  · rintro ⟨i, j, hmem, rfl, rfl⟩
    exact ⟨i, j, List.mem_append_left _ hmem, rfl, rfl⟩

theorem performed_union {n : Nat} (ops : List (Op n)) (a b : Fin n) :
    Performed (ops ++ [.union a b]) = AddPair (Performed ops) a b := by
  funext x y
  refine propext ⟨?_, ?_⟩
  · rintro ⟨i, j, hmem, rfl, rfl⟩
    rcases List.mem_append.1 hmem with hmem | hmem
    · exact .inl ⟨i, j, hmem, rfl, rfl⟩
    · obtain ⟨rfl, rfl⟩ := Op.union.inj (List.mem_singleton.1 hmem)
      exact .inr ⟨rfl, rfl⟩
  · rintro (⟨i, j, hmem, rfl, rfl⟩ | ⟨rfl, rfl⟩)
    · exact ⟨i, j, List.mem_append_left _ hmem, rfl, rfl⟩
    · exact ⟨a, b, List.mem_append_right _ (List.mem_singleton_self _), rfl, rfl⟩

theorem Forest.apply {n : Nat} (hn : n < 2 ^ 64) {ops : List (Op n)} {f : Nat → Nat}
    {uf : UnionFind} (hforest : Forest ops f uf)
    (op : Op n) : ∃ f', Forest (ops ++ [op]) f' (op.apply uf) := by
  obtain ⟨⟨h, hinv⟩, hranked⟩ := hforest
  cases op with
  | find x =>
    refine ⟨f, ⟨h, ?_⟩, hranked⟩
    rw [performed_find]
    exact (find_spec hinv x.isLt).1
  | union a b =>
    unfold Forest
    rw [performed_union]
    rcases union_cases hinv a.isLt b.isLt with ⟨hsame, hrank⟩ | ⟨small, big, hlinked⟩
    · refine ⟨f, ⟨h, hsame⟩, ?_⟩
      rw [Op.apply, hrank]
      exact hranked
    · exact ⟨_, hlinked.inv, hranked.link hn hlinked⟩

theorem forest_run {n : Nat} (hn : n < 2 ^ 64) (ops : List (Op n)) :
    ∃ f, Forest ops f (run n ops) := by
  induction ops using List.reverseRecOn with
  | nil =>
    refine ⟨id, ⟨id, (Inv.new n).weaken (fun x y hxy => hxy.elim) ?_⟩, Ranked.new n⟩
    rintro x y ⟨i, j, hmem, -⟩
    cases hmem
  | append_singleton ops op ih =>
    obtain ⟨f, hforest⟩ := ih
    have hrun : run n (ops ++ [op]) = op.apply (run n ops) := List.foldl_concat ..
    rw [hrun]
    exact hforest.apply hn op

end UnionFind

/-- After any calls: the links have no cycle, the loop of `find` ends, at one root for exactly the
nodes that the unions so far connect and without changing any root, and every rank can be raised. -/
theorem unionFind_correct {n : Nat} (hn : n < 2 ^ 64) (ops : List (UnionFind.Op n)) :
    (∀ x, ¬ Relation.TransGen (UnionFind.Link (UnionFind.run n ops).parent) x x) ∧
    (∀ x < n, UnionFind.Ends (UnionFind.run n ops).parent x ((UnionFind.run n ops).find x).1.parent
      ((UnionFind.run n ops).find x).2) ∧
    (∀ x < n, ∀ y < n, ((UnionFind.run n ops).find x).2 = ((UnionFind.run n ops).find y).2 ↔
      Relation.EqvGen (UnionFind.Performed ops) x y) ∧
    (∀ x < n, ∀ y < n, (((UnionFind.run n ops).find x).1.find y).2 =
      ((UnionFind.run n ops).find y).2) ∧
    ∀ x < n, ((UnionFind.run n ops).rank.getD x 0 + 1).toNat =
    ((UnionFind.run n ops).rank.getD x 0).toNat + 1 := by
  obtain ⟨f, ⟨h, hinv⟩, hranked⟩ := UnionFind.forest_run hn ops
  have hfind {x : Nat} (hx : x < n) : ((UnionFind.run n ops).find x).2 = f x :=
    (UnionFind.find_spec hinv hx).2
  refine ⟨hinv.acyclic, fun x hx => UnionFind.find_ends hinv hx, fun x hx y hy => ?_,
    fun x hx y hy => ?_, fun x hx => ?_⟩
  · rw [hfind hx, hfind hy]
    exact hinv.root_eq_iff hx hy
  · rw [hfind hy]
    exact (UnionFind.find_spec (UnionFind.find_spec hinv hx).1 hy).2
  · exact (UnionFind.toNat_add_one hn (hranked.node x hx)).2

/-- Three nodes, two of them joined: the rank of their root is raised without wrapping. -/
theorem unionFind_correct_joined :
    ((UnionFind.run 3 [.union 0 2, .find 2]).rank.getD 0 0 + 1).toNat = 2 := by
  have h :=
    (unionFind_correct (by decide) ([.union 0 2, .find 2] : List (UnionFind.Op 3))).2.2.2.2 0
    (by decide)
  exact h

end Solo
