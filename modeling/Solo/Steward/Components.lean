import Mathlib.Data.List.Dedup
import Mathlib.Data.List.Nodup
import Mathlib.Logic.Relation
import Mathlib.Tactic.SplitIfs
import Solo.Steward.UnionFind

/-!
# What union-find computes

The roots of `roots n joined` name the components of the graph of the joined pairs. The invariant
carries the root `f x` that `find x` returns, and a height `h` that grows along the parent links and
bounds the loop of `find`: path halving keeps both, a union renames one root and puts the other on
top.
-/

namespace Solo

namespace UnionFind

open Relation

/-- The parent links over `n` nodes whose roots are `f`, for the unions of the pairs `R`. -/
structure Inv (n : Nat) (R : Nat → Nat → Prop) (f h : Nat → Nat) (parent : List Nat) : Prop where
  length : parent.length = n
  lt : ∀ x < n, h x < n
  inj : ∀ x < n, ∀ y < n, h x = h y → x = y
  parent_lt : ∀ x < n, parent.getD x x < n
  height : ∀ x < n, parent.getD x x ≠ x → h x < h (parent.getD x x)
  root_parent : ∀ x < n, f (parent.getD x x) = f x
  isRoot : ∀ x < n, parent.getD x x = x ↔ f x = x
  joined : ∀ x y, R x y → f x = f y
  conn : ∀ x < n, EqvGen R x (f x)

theorem getD_set_eq {α : Type} {l : List α} {i : Nat} {v d : α} (hi : i < l.length) :
    (l.set i v).getD i d = v := by
  simp [List.getD_eq_getElem?_getD, hi]

theorem getD_set_ne {α : Type} {l : List α} {i j : Nat} {v d : α} (hij : i ≠ j) :
    (l.set i v).getD j d = l.getD j d := by
  simp [List.getD_eq_getElem?_getD, List.getElem?_set_ne hij]

namespace Inv

variable {n : Nat} {R R' : Nat → Nat → Prop} {f h : Nat → Nat} {parent : List Nat}

theorem new (n : Nat) : Inv n (fun _ _ => False) id id (List.range n) := by
  have hget : ∀ x < n, (List.range n).getD x x = x := by
    intro x hx
    simp [List.getD_eq_getElem?_getD, hx]
  refine ⟨List.length_range, fun x hx => hx, fun x _ y _ hxy => hxy, ?_, ?_, ?_, ?_, ?_, ?_⟩
  · intro x hx
    rw [hget x hx]
    exact hx
  · intro x hx hne
    exact absurd (hget x hx) hne
  · intro x hx
    rw [hget x hx]
  · intro x hx
    exact iff_of_true (hget x hx) rfl
  · exact fun _ _ hf => hf.elim
  · exact fun x _ => .refl x

theorem root_lt_of (hinv : Inv n R f h parent) {k x : Nat} (hk : n ≤ h x + k) (hx : x < n) :
    f x < n ∧ f (f x) = f x := by
  induction k generalizing x with
  | zero =>
    have := hinv.lt x hx
    omega
  | succ k ih =>
    by_cases hp : parent.getD x x = x
    · have hfx := (hinv.isRoot x hx).1 hp
      rw [hfx]
      exact ⟨hx, hfx⟩
    · have hlt := hinv.height x hx hp
      rw [← hinv.root_parent x hx]
      exact ih (by omega) (hinv.parent_lt x hx)

theorem root_lt (hinv : Inv n R f h parent) {x : Nat} (hx : x < n) : f x < n :=
  (hinv.root_lt_of (Nat.le_add_left n _) hx).1

theorem root_root (hinv : Inv n R f h parent) {x : Nat} (hx : x < n) : f (f x) = f x :=
  (hinv.root_lt_of (Nat.le_add_left n _) hx).2

/-- One turn of path halving. -/
theorem halve (hinv : Inv n R f h parent) {x p : Nat} (hx : x < n) (hp : parent.getD x x = p)
    (hne : p ≠ x) : Inv n R f h (parent.set x (parent.getD p p)) ∧ h x < h (parent.getD p p) := by
  have hpn : p < n := hp ▸ hinv.parent_lt x hx
  have hxp : h x < h p := hp ▸ hinv.height x hx (hp.symm ▸ hne)
  have hgn : parent.getD p p < n := hinv.parent_lt p hpn
  have hxg : h x < h (parent.getD p p) := by
    by_cases hroot : parent.getD p p = p
    · rw [hroot]
      exact hxp
    · exact Nat.lt_trans hxp (hinv.height p hpn hroot)
  have hgx : parent.getD p p ≠ x := fun heq => Nat.lt_irrefl _ (heq ▸ hxg)
  have hself : (parent.set x (parent.getD p p)).getD x x = parent.getD p p :=
    getD_set_eq (hinv.length.symm ▸ hx)
  have hother {y : Nat} (hy : y ≠ x) : (parent.set x (parent.getD p p)).getD y y =
      parent.getD y y :=
    getD_set_ne hy.symm
  refine ⟨⟨by rw [List.length_set, hinv.length], hinv.lt, hinv.inj, ?_, ?_, ?_, ?_, hinv.joined, hinv.conn⟩, hxg⟩
  · intro y hy
    by_cases hyx : y = x
    · rw [hyx, hself]
      exact hgn
    · rw [hother hyx]
      exact hinv.parent_lt y hy
  · intro y hy hy'
    by_cases hyx : y = x
    · rw [hyx, hself]
      exact hxg
    · rw [hother hyx] at hy' ⊢
      exact hinv.height y hy hy'
  · intro y hy
    by_cases hyx : y = x
    · rw [hyx, hself, hinv.root_parent p hpn, ← hp, hinv.root_parent x hx]
    · rw [hother hyx]
      exact hinv.root_parent y hy
  · intro y hy
    by_cases hyx : y = x
    · rw [hyx, hself, ← hinv.isRoot x hx, hp]
      exact iff_of_false hgx hne
    · rw [hother hyx]
      exact hinv.isRoot y hy

end Inv

section Spec

variable {n : Nat} {R : Nat → Nat → Prop} {f h : Nat → Nat} {parent : List Nat}

/-- `find` returns the root, and path halving keeps the roots. -/
theorem findLoop_spec {fuel x : Nat} (hinv : Inv n R f h parent) (hx : x < n)
    (hfuel : n ≤ h x + fuel) :
    Inv n R f h (findLoop fuel parent x).1 ∧ (findLoop fuel parent x).2 = f x := by
  induction fuel generalizing parent x with
  | zero =>
    have := hinv.lt x hx
    omega
  | succ fuel ih =>
    unfold findLoop
    dsimp only
    split
    next hp => exact ⟨hinv, ((hinv.isRoot x hx).1 hp).symm⟩
    next hp =>
      obtain ⟨hinv', hlt⟩ := hinv.halve hx rfl hp
      have hpn := hinv.parent_lt x hx
      have hnext : (parent.set x (parent.getD (parent.getD x x) (parent.getD x x))).getD x x =
          parent.getD (parent.getD x x) (parent.getD x x) := getD_set_eq (hinv.length.symm ▸ hx)
      rw [hnext]
      have hroot : f (parent.getD (parent.getD x x) (parent.getD x x)) = f x := by
        rw [hinv.root_parent _ hpn, hinv.root_parent x hx]
      rw [← hroot]
      exact ih hinv' (hinv.parent_lt _ hpn) (by omega)

theorem find_spec {uf : UnionFind} {x : Nat} (hinv : Inv n R f h uf.parent) (hx : x < n) :
    Inv n R f h (uf.find x).1.parent ∧ (uf.find x).2 = f x :=
  findLoop_spec hinv hx (by rw [hinv.length]; exact Nat.le_add_left _ _)

end Spec

/-- The root of each node after `small`'s tree went under `big`. -/
def linkRoot (f : Nat → Nat) (small big y : Nat) : Nat := if f y = small then big else f y

/-- The heights after `big` moved to the top. -/
def topHeight (n : Nat) (h : Nat → Nat) (big y : Nat) : Nat :=
  if y = big then n - 1 else if h big < h y then h y - 1 else h y

namespace Inv

variable {n : Nat} {R R' : Nat → Nat → Prop} {f h : Nat → Nat} {parent : List Nat}

theorem topHeight_lt (hinv : Inv n R f h parent) {big y : Nat} (hbig : big < n) (hy : y < n)
    (hne : y ≠ big) : topHeight n h big y < n - 1 := by
  have hlt := hinv.lt y hy
  have hltb := hinv.lt big hbig
  have hinj : h y ≠ h big := fun heq => hne (hinv.inj y hy big hbig heq)
  unfold topHeight
  rw [if_neg hne]
  split_ifs <;> omega

theorem link (hinv : Inv n R f h parent) {small big : Nat} (hsmall : small < n) (hbig : big < n)
    (hfs : f small = small) (hfb : f big = big) (hne : small ≠ big) (hR : ∀ x y, R x y → R' x y)
    (hconn : EqvGen R' small big)
    (hjoined : ∀ x y, R' x y → linkRoot f small big x = linkRoot f small big y) :
    Inv n R' (linkRoot f small big) (topHeight n h big) (parent.set small big) := by
  have hself : (parent.set small big).getD small small = big :=
    getD_set_eq (hinv.length.symm ▸ hsmall)
  have hother {y : Nat} (hy : y ≠ small) : (parent.set small big).getD y y = parent.getD y y :=
    getD_set_ne hy.symm
  have hbigRoot : parent.getD big big = big := (hinv.isRoot big hbig).2 hfb
  refine ⟨by rw [List.length_set, hinv.length], ?_, ?_, ?_, ?_, ?_, ?_, hjoined, ?_⟩
  · intro x hx
    by_cases hxb : x = big
    · unfold topHeight
      rw [if_pos hxb]
      omega
    · have := hinv.topHeight_lt hbig hx hxb
      omega
  · intro x hx y hy hxy
    by_cases hxb : x = big
    · by_cases hyb : y = big
      · exact hxb.trans hyb.symm
      · have := hinv.topHeight_lt hbig hy hyb
        rw [← hxy, topHeight, if_pos hxb] at this
        omega
    · by_cases hyb : y = big
      · have := hinv.topHeight_lt hbig hx hxb
        rw [hxy, topHeight, if_pos hyb] at this
        omega
      · have hxi : h x ≠ h big := fun heq => hxb (hinv.inj x hx big hbig heq)
        have hyi : h y ≠ h big := fun heq => hyb (hinv.inj y hy big hbig heq)
        refine hinv.inj x hx y hy ?_
        simp only [topHeight, if_neg hxb, if_neg hyb] at hxy
        split_ifs at hxy <;> omega
  · intro y hy
    by_cases hys : y = small
    · rw [hys, hself]
      exact hbig
    · rw [hother hys]
      exact hinv.parent_lt y hy
  · intro y hy hyp
    by_cases hys : y = small
    · rw [hys, hself]
      have := hinv.topHeight_lt hbig hsmall hne
      simpa [topHeight] using this
    · rw [hother hys] at hyp ⊢
      have hyb : y ≠ big := fun heq => hyp (heq ▸ hbigRoot)
      have hlt := hinv.height y hy hyp
      have hpn := hinv.parent_lt y hy
      by_cases hpb : parent.getD y y = big
      · rw [hpb]
        have := hinv.topHeight_lt hbig hy hyb
        simpa [topHeight] using this
      · have hpi : h (parent.getD y y) ≠ h big := fun heq => hpb (hinv.inj _ hpn big hbig heq)
        have hyi : h y ≠ h big := fun heq => hyb (hinv.inj y hy big hbig heq)
        simp only [topHeight, if_neg hyb, if_neg hpb]
        split_ifs <;> omega
  · intro y hy
    by_cases hys : y = small
    · rw [hys, hself]
      simp [linkRoot, hfb, hfs]
    · rw [hother hys]
      unfold linkRoot
      rw [hinv.root_parent y hy]
  · intro y hy
    by_cases hys : y = small
    · rw [hys, hself]
      simp [linkRoot, hfs]
    · rw [hother hys, hinv.isRoot y hy]
      unfold linkRoot
      split_ifs with hfy
      · refine iff_of_false (fun heq => hys (heq.symm.trans hfy)) fun heq => hne ?_
        rw [← hfy, ← heq, hfb]
      · rfl
  · intro y hy
    have hyf : EqvGen R' y (f y) := (hinv.conn y hy).mono hR
    unfold linkRoot
    split_ifs with hfy
    · exact .trans _ _ _ (hfy ▸ hyf) hconn
    · exact hyf

/-- A pair whose roots agree adds nothing. -/
theorem weaken (hinv : Inv n R f h parent) (hR : ∀ x y, R x y → R' x y)
    (hjoined : ∀ x y, R' x y → f x = f y) : Inv n R' f h parent :=
  ⟨hinv.length, hinv.lt, hinv.inj, hinv.parent_lt, hinv.height, hinv.root_parent, hinv.isRoot,
    hjoined, fun x hx => (hinv.conn x hx).mono hR⟩

/-- What holds of the roots: they are representatives of the components. -/
theorem root_eq_iff (hinv : Inv n R f h parent) {x y : Nat} (hx : x < n) (hy : y < n) :
    f x = f y ↔ EqvGen R x y := by
  constructor
  · intro heq
    exact .trans _ _ _ (hinv.conn x hx) (.symm _ _ (heq ▸ hinv.conn y hy))
  · intro hconn
    clear hx hy
    induction hconn with
    | rel x y hxy => exact hinv.joined x y hxy
    | refl x => rfl
    | symm x y _ ih => exact ih.symm
    | trans x y z _ _ ihxy ihyz => exact ihxy.trans ihyz

end Inv

/-- The pairs so far and one more. -/
def AddPair (R : Nat → Nat → Prop) (a b x y : Nat) : Prop := R x y ∨ x = a ∧ y = b

/-- A union of two trees, the one of the root `small` put under the root `big`. -/
structure Linked (n : Nat) (R : Nat → Nat → Prop) (f : Nat → Nat) (uf uf' : UnionFind)
    (small big : Nat) : Prop where
  small_lt : small < n
  big_lt : big < n
  small_root : f small = small
  big_root : f big = big
  ne : small ≠ big
  inv : ∃ h', Inv n R (linkRoot f small big) h' uf'.parent
  rank_le : ¬ uf.rank.getD big 0 < uf.rank.getD small 0
  rank : uf'.rank = if uf.rank.getD small 0 = uf.rank.getD big 0 then uf.rank.set big
    (uf.rank.getD big 0 + 1) else uf.rank

/-- A union changes nothing, or puts one tree under the root of another. -/
theorem union_cases {n : Nat} {R : Nat → Nat → Prop} {f h : Nat → Nat} {uf : UnionFind} {a b : Nat}
    (hinv : Inv n R f h uf.parent) (ha : a < n) (hb : b < n) :
    (Inv n (AddPair R a b) f h (uf.union a b).parent ∧ (uf.union a b).rank = uf.rank) ∨
      ∃ small big, Linked n (AddPair R a b) f uf (uf.union a b) small big := by
  obtain ⟨hinva, hra⟩ := find_spec hinv ha
  obtain ⟨hinvb, hrb⟩ := find_spec hinva hb
  have hR : ∀ x y, R x y → AddPair R a b x y := fun _ _ => .inl
  have hab : EqvGen (AddPair R a b) (f a) (f b) :=
    .trans _ _ _ (.symm _ _ ((hinv.conn a ha).mono hR))
      (.trans _ _ _ (.rel _ _ (.inr ⟨rfl, rfl⟩)) ((hinv.conn b hb).mono hR))
  have hrank : ((uf.find a).1.find b).1.rank = uf.rank := rfl
  unfold union
  dsimp only
  rw [hra, hrb, hrank]
  split
  next heq =>
    refine .inl ⟨hinvb.weaken hR ?_, rfl⟩
    rintro x y (hxy | ⟨rfl, rfl⟩)
    · exact hinv.joined x y hxy
    · exact heq
  next hne =>
    have hfa := hinv.root_root ha
    have hfb := hinv.root_root hb
    split
    next hlt =>
      refine .inr ⟨_, _, hinv.root_lt ha, hinv.root_lt hb, hfa, hfb, hne,
        ⟨_, hinvb.link (hinv.root_lt ha) (hinv.root_lt hb) hfa hfb hne hR hab ?_⟩,
          BitVec.lt_asymm hlt, rfl⟩
      rintro x y (hxy | ⟨rfl, rfl⟩)
      · unfold linkRoot
        rw [hinv.joined x y hxy]
      · simp [linkRoot, Ne.symm hne]
    next hge =>
      refine .inr ⟨_, _, hinv.root_lt hb, hinv.root_lt ha, hfb, hfa, Ne.symm hne,
        ⟨_, hinvb.link (hinv.root_lt hb) (hinv.root_lt ha) hfb hfa (Ne.symm hne) hR (.symm _ _ hab)
          ?_⟩, hge, rfl⟩
      rintro x y (hxy | ⟨rfl, rfl⟩)
      · unfold linkRoot
        rw [hinv.joined x y hxy]
      · simp [linkRoot, hne]

/-- The invariant after a union, with the roots and heights that it leaves. -/
theorem union_spec {n : Nat} {R : Nat → Nat → Prop} {f h : Nat → Nat} {uf : UnionFind} {a b : Nat}
    (hinv : Inv n R f h uf.parent) (ha : a < n) (hb : b < n) :
    ∃ f' h', Inv n (AddPair R a b) f' h' (uf.union a b).parent := by
  rcases union_cases hinv ha hb with ⟨hsame, -⟩ | ⟨small, big, hlinked⟩
  · exact ⟨f, h, hsame⟩
  · exact ⟨_, hlinked.inv⟩

theorem mem_pairs {n a b : Nat} : (a, b) ∈ pairs n ↔ a < b ∧ b < n := by
  unfold pairs
  simp only [List.mem_flatMap, List.mem_range, List.mem_map, List.mem_range'_1, Prod.mk.injEq]
  constructor
  · rintro ⟨a', ha', b', hb', rfl, rfl⟩
    omega
  · rintro ⟨hab, hbn⟩
    exact ⟨a, by omega, b, by omega, rfl, rfl⟩

theorem foldl_union_spec {n : Nat} {joined : Nat → Nat → Bool} {l : List (Nat × Nat)}
    {R : Nat → Nat → Prop}
    {f h : Nat → Nat} {uf : UnionFind} (hinv : Inv n R f h uf.parent)
    (hl : ∀ p ∈ l, p.1 < n ∧ p.2 < n) :
    ∃ f' h', Inv n (fun x y => R x y ∨ (x, y) ∈ l ∧ joined x y) f' h'
      (l.foldl (fun uf p => if joined p.1 p.2 then uf.union p.1 p.2 else uf) uf).parent := by
  induction l generalizing R f h uf with
  | nil =>
    refine ⟨f, h, hinv.weaken (fun _ _ => .inl) ?_⟩
    rintro x y (hxy | ⟨hmem, -⟩)
    · exact hinv.joined x y hxy
    · cases hmem
  | cons p l ih =>
    obtain ⟨a, b⟩ := p
    obtain ⟨ha, hb⟩ := hl (a, b) List.mem_cons_self
    have hl' : ∀ p ∈ l, p.1 < n ∧ p.2 < n := fun p hp => hl p (List.mem_cons_of_mem _ hp)
    rw [List.foldl_cons]
    split
    next hab =>
      obtain ⟨f₁, h₁, hinv₁⟩ := union_spec hinv ha hb
      obtain ⟨f', h', hinv'⟩ := ih hinv₁ hl'
      refine ⟨f', h', hinv'.weaken ?_ fun x y hxy => hinv'.joined x y ?_⟩
      · rintro x y ((hxy | ⟨rfl, rfl⟩) | ⟨hmem, hxy⟩)
        · exact .inl hxy
        · exact .inr ⟨List.mem_cons_self, hab⟩
        · exact .inr ⟨List.mem_cons_of_mem _ hmem, hxy⟩
      · rcases hxy with hxy | ⟨hmem, hxy⟩
        · exact .inl (.inl hxy)
        · rcases List.mem_cons.1 hmem with heq | hmem
          · obtain ⟨rfl, rfl⟩ := Prod.mk.inj heq
            exact .inl (.inr ⟨rfl, rfl⟩)
          · exact .inr ⟨hmem, hxy⟩
    next hab =>
      obtain ⟨f', h', hinv'⟩ := ih hinv hl'
      refine ⟨f', h', hinv'.weaken ?_ fun x y hxy => hinv'.joined x y ?_⟩
      · rintro x y (hxy | ⟨hmem, hxy⟩)
        · exact .inl hxy
        · exact .inr ⟨List.mem_cons_of_mem _ hmem, hxy⟩
      · rcases hxy with hxy | ⟨hmem, hxy⟩
        · exact .inl hxy
        · rcases List.mem_cons.1 hmem with heq | hmem
          · obtain ⟨rfl, rfl⟩ := Prod.mk.inj heq
            exact absurd hxy hab
          · exact .inr ⟨hmem, hxy⟩

theorem rootsFrom_eq {n : Nat} {R : Nat → Nat → Prop} {f h : Nat → Nat} {uf : UnionFind}
    {xs : List Nat}
    (hinv : Inv n R f h uf.parent) (hxs : ∀ x ∈ xs, x < n) : uf.rootsFrom xs = xs.map f := by
  induction xs generalizing uf with
  | nil => rfl
  | cons x xs ih =>
    obtain ⟨hinv', hroot⟩ := find_spec hinv (hxs x List.mem_cons_self)
    rw [rootsFrom, List.map_cons, ← hroot, ← ih hinv' fun y hy => hxs y (List.mem_cons_of_mem _ hy)]

/-- An edge of the graph on `n` nodes. -/
def Edge (n : Nat) (joined : Nat → Nat → Bool) (a b : Nat) : Prop := a < b ∧ b < n ∧ joined a b

/-- Two nodes are connected in the graph of the joined pairs. -/
def Connected (n : Nat) (joined : Nat → Nat → Bool) : Nat → Nat → Prop := EqvGen (Edge n joined)

/-- Two nodes get one root exactly when they are connected. -/
theorem roots_spec (n : Nat) (joined : Nat → Nat → Bool) :
    ∃ f : Nat → Nat, roots n joined = (List.range n).map f ∧
      ∀ x < n, ∀ y < n, f x = f y ↔ Connected n joined x y := by
  have hpairs : ∀ p ∈ pairs n, p.1 < n ∧ p.2 < n := by
    rintro ⟨a, b⟩ hp
    have := mem_pairs.1 hp
    exact ⟨by omega, by omega⟩
  have hnew : Inv n (fun _ _ => False) id id (new n).parent := Inv.new n
  obtain ⟨f, h, hinv⟩ := foldl_union_spec hnew hpairs
  refine ⟨f, rootsFrom_eq hinv fun x hx => List.mem_range.1 hx, fun x hx y hy => ?_⟩
  rw [hinv.root_eq_iff hx hy, Connected]
  have hedge : (fun x y => False ∨ (x, y) ∈ pairs n ∧ joined x y = true) = Edge n joined := by
    funext a b
    rw [false_or, mem_pairs, and_assoc, Edge]
  rw [hedge]

end UnionFind

end Solo
