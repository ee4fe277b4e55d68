import Mathlib.Data.List.Nodup
import Mathlib.Data.List.Infix

/-!
# Directory trees

A tree is a list of rows, each the path of a file with its content or of a directory. The operations
are those of a file system on one entry; a rename takes along what is below it.

`Moves` sends units, which are entries with all that is below them, to targets outside of each
other's way. `moved M` is the tree with the units in `M` at their targets. One more rename is one
more unit in `M` (`rename_moved`), and the order of the renames does not show.
-/

inductive FileNode (β : Type)
  | file (content : β)
  | dir
  deriving DecidableEq

def FileNode.isDir {β : Type} : FileNode β → Bool
  | .file _ => false
  | .dir => true

def FileNode.content? {β : Type} : FileNode β → Option β
  | .file content => some content
  | .dir => none

theorem FileNode.isDir_eq_true {β : Type} {n : FileNode β} : n.isDir = true ↔ n = .dir := by
  cases n <;> simp [FileNode.isDir]

theorem FileNode.isDir_eq_false {β : Type} {n : FileNode β} : n.isDir = false ↔
    ∃ c, n = .file c := by
  cases n <;> simp [FileNode.isDir]

abbrev FilePath := List String

structure FileTree (β : Type) where
  rows : List (FilePath × FileNode β)
  deriving DecidableEq

namespace FileTree

variable {β : Type}

def has (t : FileTree β) (p : FilePath) : Bool := t.rows.any (·.1 = p)

def isFile (t : FileTree β) (p : FilePath) : Bool := t.rows.any fun r => r.1 = p && !r.2.isDir

def isDir (t : FileTree β) (p : FilePath) : Bool := t.rows.any fun r => r.1 = p && r.2.isDir

/-- What is in a file. -/
def content? (t : FileTree β) (p : FilePath) : Option β :=
  (t.rows.find? fun r => r.1 = p).bind fun r => r.2.content?

/-- The names in a directory. -/
def list (t : FileTree β) (p : FilePath) : List String :=
  t.rows.filterMap fun r => if r.1.dropLast = p then r.1.getLast? else none

/-- The tree without the entries at some paths. -/
def without (t : FileTree β) (gone : FilePath → Bool) : FileTree β :=
  ⟨t.rows.filter fun r => !gone r.1⟩

def relocate (src dst p : FilePath) : FilePath :=
  if src.isPrefixOf p then dst ++ p.drop src.length else p

/-- The directory that the entry is in is there. -/
def hasParent (t : FileTree β) (p : FilePath) : Bool := p.dropLast = [] || t.isDir p.dropLast

/-- `none` where there is nothing to rename, or something in its place, or no such place. -/
def rename? (t : FileTree β) (src dst : FilePath) : Option (FileTree β) :=
  if t.has src && !t.has dst &&
    t.hasParent dst then some ⟨t.rows.map fun r => (relocate src dst r.1, r.2)⟩ else none

def removeFile? (t : FileTree β) (p : FilePath) : Option (FileTree β) :=
  if t.isFile p then some (t.without fun q => q = p) else none

/-- An empty directory is removed. -/
def removeDir? (t : FileTree β) (p : FilePath) : Option (FileTree β) :=
  if t.isDir p && !t.rows.any (fun r => p.isPrefixOf r.1 && r.1 ≠ p)
    then some (t.without fun q => q = p) else none

/-- The directory, in one that exists. -/
def createDir (t : FileTree β) (p : FilePath) : FileTree β :=
  if t.has p then t else ⟨t.rows ++ [(p, .dir)]⟩

variable {t : FileTree β} {p q : FilePath} {n : String}

theorem has_iff : t.has p = true ↔ ∃ r ∈ t.rows, r.1 = p := by simp [has]

theorem isFile_iff : t.isFile p = true ↔ ∃ c, (p, .file c) ∈ t.rows := by
  simp only [isFile, List.any_eq_true, Bool.and_eq_true, decide_eq_true_eq, Bool.not_eq_true',
    FileNode.isDir_eq_false]
  constructor
  · rintro ⟨⟨q, n⟩, hr, rfl, c, rfl⟩
    exact ⟨c, hr⟩
  · rintro ⟨c, hr⟩
    exact ⟨_, hr, rfl, c, rfl⟩

theorem isDir_iff : t.isDir p = true ↔ (p, .dir) ∈ t.rows := by
  simp only [isDir, List.any_eq_true, Bool.and_eq_true, decide_eq_true_eq, FileNode.isDir_eq_true]
  constructor
  · rintro ⟨⟨q, n⟩, hr, rfl, rfl⟩
    exact hr
  · intro hr
    exact ⟨_, hr, rfl, rfl⟩

theorem content?_eq_some {c : β} (h : (t.rows.map Prod.fst).Nodup) : t.content? p = some c ↔
    (p, .file c) ∈ t.rows := by
  unfold content?
  constructor
  · intro hc
    obtain ⟨⟨q, n⟩, hr, hn⟩ := Option.bind_eq_some_iff.1 hc
    have hq : q = p := by simpa using List.find?_some hr
    have hmem := List.mem_of_find?_eq_some hr
    cases n with
    | dir => cases hn
    | file c' => rwa [← hq, ← Option.some.inj hn]
  · intro hr
    cases hfind : t.rows.find? fun r => r.1 = p with
    | none => exact absurd (List.find?_eq_none.1 hfind _ hr) (by simp)
    | some r =>
      have hp : r.1 = p := by simpa using List.find?_some hfind
      rw [List.inj_on_of_nodup_map h (List.mem_of_find?_eq_some hfind) hr hp]
      rfl

/-- The name of an entry of the directory. -/
def nameIn (p q : FilePath) : Option String := if q.dropLast = p then q.getLast? else none

theorem nameIn_eq_some : nameIn p q = some n ↔ q = p ++ [n] := by
  unfold nameIn
  constructor
  · intro h
    split at h
    · next hq => rw [← hq, List.dropLast_append_getLast? n h]
    · cases h
  · rintro rfl
    simp

theorem list_eq (t : FileTree β) (p : FilePath) :
    t.list p = (t.rows.map Prod.fst).filterMap (nameIn p) := by
  rw [List.filterMap_map]
  rfl

theorem mem_list : n ∈ t.list p ↔ t.has (p ++ [n]) = true := by
  rw [has_iff]
  rw [list_eq, List.mem_filterMap]
  simp only [nameIn_eq_some, List.mem_map]
  constructor
  · rintro ⟨q, ⟨r, hr, rfl⟩, hq⟩
    exact ⟨r, hr, hq⟩
  · rintro ⟨r, hr, hq⟩
    exact ⟨_, ⟨r, hr, rfl⟩, hq⟩

theorem nodup_list (h : (t.rows.map Prod.fst).Nodup) (p : FilePath) : (t.list p).Nodup := by
  rw [list_eq]
  refine List.Nodup.filterMap (fun q q' n hq hq' => ?_) h
  rw [nameIn_eq_some.1 hq, nameIn_eq_some.1 hq']

/-! ### Moves -/

/-- Which unit an entry belongs to, and where the units go. -/
structure Moves where
  unit : FilePath → Option FilePath
  target : FilePath → FilePath

namespace Moves

/-- Where an entry is once the units in `M` are moved. -/
def place (mv : Moves) (M : FilePath → Bool) (p : FilePath) : FilePath :=
  (mv.unit p).elim p fun u => if M u then mv.target u ++ p.drop u.length else p

/-- A unit of the tree. -/
def Unit (mv : Moves) (t : FileTree β) (u : FilePath) : Prop := ∃ r ∈ t.rows, mv.unit r.1 = some u

/-- The units are apart, so are the targets, and nothing is in the way. -/
structure Fits (mv : Moves) (t : FileTree β) : Prop where
  below : ∀ u, mv.Unit t u → ∀ r ∈ t.rows, u <+: r.1 ↔ mv.unit r.1 = some u
  self : ∀ u, mv.Unit t u → ∃ r ∈ t.rows, r.1 = u
  outside : ∀ u u', mv.Unit t u → mv.Unit t u' → ∀ q, ¬ u <+: mv.target u' ++ q
  fresh : ∀ u, mv.Unit t u → ∀ r ∈ t.rows, ¬ mv.target u <+: r.1
  apart : ∀ u u', mv.Unit t u → mv.Unit t u' → u ≠ u' → ∀ q q', mv.target u ++ q ≠ mv.target u' ++
    q'

end Moves

def moved (t : FileTree β) (mv : Moves) (M : FilePath → Bool) : FileTree β :=
  ⟨t.rows.map fun r => (mv.place M r.1, r.2)⟩

/-- One more unit. -/
def add (M : FilePath → Bool) (u : FilePath) : FilePath → Bool := fun v => M v || decide (v = u)

section Moved

variable {mv : Moves} {M : FilePath → Bool} {u : FilePath}

theorem place_none (h : mv.unit p = none) : mv.place M p = p := by
  rw [Moves.place, h]
  rfl

theorem place_unmoved (h : mv.unit p = some u) (hu : M u = false) : mv.place M p = p := by
  rw [Moves.place, h]
  simp [hu]

theorem place_moved (h : mv.unit p = some u) (hu : M u = true) : mv.place M p = mv.target u ++
    p.drop u.length := by
  rw [Moves.place, h]
  simp [hu]

/-- An entry is where it was, or its unit is at its target. -/
theorem place_cases (mv : Moves) (M : FilePath → Bool) (p : FilePath) : mv.place M p = p ∨
    ∃ u, mv.unit p = some u ∧ M u = true ∧ mv.place M p = mv.target u ++ p.drop u.length := by
  cases h : mv.unit p with
  | none => exact .inl (place_none h)
  | some u =>
    cases hu : M u with
    | false => exact .inl (place_unmoved h hu)
    | true => exact .inr ⟨u, rfl, hu, place_moved h hu⟩

theorem moved_none (t : FileTree β) (mv : Moves) : t.moved mv (fun _ => false) = t := by
  cases t
  simp only [moved, mk.injEq]
  refine (List.map_congr_left fun r _ => ?_).trans (List.map_id _)
  rcases place_cases mv (fun _ => false) r.1 with h | ⟨u, -, hu, -⟩
  · rw [h]
    rfl
  · cases hu

/-- Moved rows, by the row they come from. -/
theorem mem_moved {r : FilePath × FileNode β} : r ∈ (t.moved mv M).rows ↔
    ∃ r₀ ∈ t.rows, (mv.place M r₀.1, r₀.2) = r := by
  simp [moved]

theorem has_moved : (t.moved mv M).has p = true ↔ ∃ r ∈ t.rows, mv.place M r.1 = p := by
  simp only [has_iff, mem_moved]
  constructor
  · rintro ⟨-, ⟨r, hr, rfl⟩, hp⟩
    exact ⟨r, hr, hp⟩
  · rintro ⟨r, hr, hp⟩
    exact ⟨_, ⟨r, hr, rfl⟩, hp⟩

/-- A unit that was not moved is where it was. -/
theorem Moves.Fits.place_self (h : mv.Fits t) (hu : mv.Unit t u) (hM : M u = false) :
    mv.place M u = u := by
  obtain ⟨r, hr, rfl⟩ := h.self u hu
  exact place_unmoved ((h.below _ hu r hr).1 (List.prefix_refl _)) hM

theorem Moves.Fits.has_unit (h : mv.Fits t) (hu : mv.Unit t u) (hM : M u = false) :
    (t.moved mv M).has u = true := by
  obtain ⟨r, hr, hru⟩ := h.self u hu
  exact has_moved.2 ⟨r, hr, by rw [hru, h.place_self hu hM]⟩

/-- Nothing is in the way of a unit that was not moved. -/
theorem Moves.Fits.not_has_target (h : mv.Fits t) (hu : mv.Unit t u) (hM : M u = false) :
    (t.moved mv M).has (mv.target u) = false := by
  rw [← Bool.not_eq_true, has_moved]
  rintro ⟨r, hr, hp⟩
  rcases place_cases mv M r.1 with hsame | ⟨v, hv, hMv, hmoved⟩
  · refine h.fresh u hu r hr ?_
    rw [← hp, hsame]
  · have hne : u ≠ v := fun heq => by rw [heq, hMv] at hM; cases hM
    refine h.apart u v hu ⟨r, hr, hv⟩ hne [] (r.1.drop v.length) ?_
    rw [List.append_nil, ← hp, hmoved]

theorem Moves.Fits.place_add (h : mv.Fits t) (hu : mv.Unit t u) (hM : M u = false)
    {r : FilePath × FileNode β}
    (hr : r ∈ t.rows) : relocate u (mv.target u) (mv.place M r.1) = mv.place (add M u) r.1 := by
  cases hunit : mv.unit r.1 with
  | none =>
    have hbelow : ¬ u <+: r.1 := fun hp => by simpa [hunit] using (h.below u hu r hr).1 hp
    rw [place_none hunit, place_none hunit, relocate, if_neg (by simpa using hbelow)]
  | some v =>
    by_cases hvu : v = u
    · subst hvu
      have hadd : add M v v = true := by simp [add]
      have hbelow : v <+: r.1 := (h.below v hu r hr).2 hunit
      rw [place_unmoved hunit hM, place_moved hunit hadd, relocate, if_pos (by simpa using hbelow)]
    · have hadd : add M u v = M v := by simp [add, hvu]
      cases hMv : M v with
      | false =>
        have hbelow : ¬ u <+: r.1 :=
          fun hp => hvu (Option.some.inj (hunit.symm.trans ((h.below u hu r hr).1 hp)))
        rw [place_unmoved hunit hMv, place_unmoved hunit (hadd.trans hMv), relocate,
          if_neg (by simpa using hbelow)]
      | true =>
        have hout := h.outside u v hu ⟨r, hr, hunit⟩ (r.1.drop v.length)
        rw [place_moved hunit hMv, place_moved hunit (hadd.trans hMv), relocate,
          if_neg (by simpa using hout)]

/-- A rename of the plan moves one more unit. -/
theorem Moves.Fits.rename_moved (h : mv.Fits t) (hu : mv.Unit t u) (hM : M u = false)
    (hparent : (t.moved mv M).hasParent (mv.target u) = true) :
    (t.moved mv M).rename? u (mv.target u) = some (t.moved mv (add M u)) := by
  rw [rename?, h.has_unit hu hM, h.not_has_target hu hM, hparent]
  have hrows : (t.moved mv M).rows.map (fun r => (relocate u (mv.target u) r.1, r.2)) =
      (t.moved mv (add M u)).rows := by
    unfold moved
    rw [List.map_map]
    exact List.map_congr_left fun r hr => by rw [Function.comp_apply, h.place_add hu hM hr]
  rw [hrows]
  rfl

theorem Moves.Fits.place_injOn (h : mv.Fits t) {r r' : FilePath × FileNode β} (hr : r ∈ t.rows)
    (hr' : r' ∈ t.rows) (heq : mv.place M r.1 = mv.place M r'.1) : r.1 = r'.1 := by
  rcases place_cases mv M r.1 with hp | ⟨u, hu, -, hp⟩ <;>
    rcases place_cases mv M r'.1 with hp' | ⟨u', hu', -, hp'⟩
  · rw [← hp, heq, hp']
  · rw [hp, hp'] at heq
    exact absurd (heq ▸ List.prefix_append _ _) (h.fresh u' ⟨r', hr', hu'⟩ r hr)
  · rw [hp, hp'] at heq
    exact absurd (heq ▸ List.prefix_append _ _) (h.fresh u ⟨r, hr, hu⟩ r' hr')
  · rw [hp, hp'] at heq
    by_cases huu : u = u'
    · subst huu
      obtain ⟨q, hq⟩ := (h.below u ⟨r, hr, hu⟩ r hr).2 hu
      obtain ⟨q', hq'⟩ := (h.below u ⟨r, hr, hu⟩ r' hr').2 hu'
      have hdrop := List.append_cancel_left heq
      rw [← hq, ← hq', List.drop_left, List.drop_left] at hdrop
      rw [← hq, ← hq', hdrop]
    · exact absurd heq (h.apart u u' ⟨r, hr, hu⟩ ⟨r', hr', hu'⟩ huu _ _)

theorem Moves.Fits.nodup_moved (h : mv.Fits t) (hnodup : (t.rows.map Prod.fst).Nodup) :
    ((t.moved mv M).rows.map Prod.fst).Nodup := by
  rw [moved, List.map_map]
  refine List.Nodup.map_on (fun r hr r' hr' heq => ?_) (List.Nodup.of_map _ hnodup)
  exact List.inj_on_of_nodup_map hnodup hr hr' (h.place_injOn hr hr' heq)

/-! ### Entries that are gone -/

theorem mem_without {gone : FilePath → Bool} {r : FilePath × FileNode β} :
    r ∈ (t.without gone).rows ↔ r ∈ t.rows ∧ gone r.1 = false := by simp [without]

theorem without_without (t : FileTree β) (gone gone' : FilePath → Bool) :
    (t.without gone).without gone' = t.without fun p => gone p || gone' p := by
  simp only [without, List.filter_filter, mk.injEq]
  exact List.filter_congr fun r _ => by rw [Bool.not_or, Bool.and_comm]

/-- What is left of a tree fits, if a unit of which something is left is left. -/
theorem Moves.Fits.without {gone : FilePath → Bool} (h : mv.Fits t)
    (hgone : ∀ u, mv.Unit (t.without gone) u → gone u = false) : mv.Fits (t.without gone) := by
  have hunit : ∀ u, mv.Unit (t.without gone) u → mv.Unit t u :=
    fun u ⟨r, hr, hu⟩ => ⟨r, (mem_without.1 hr).1, hu⟩
  have hrow : ∀ r ∈ (t.without gone).rows, r ∈ t.rows := fun r hr => (mem_without.1 hr).1
  refine ⟨fun u hu r hr => h.below u (hunit u hu) r (hrow r hr), fun u hu => ?_,
    fun u u' hu hu' => h.outside u u' (hunit u hu) (hunit u' hu'),
    fun u hu r hr => h.fresh u (hunit u hu) r (hrow r hr),
    fun u u' hu hu' => h.apart u u' (hunit u hu) (hunit u' hu')⟩
  obtain ⟨r, hr, rfl⟩ := h.self u (hunit u hu)
  exact ⟨r, mem_without.2 ⟨hr, hgone _ hu⟩, rfl⟩

/-- Entries can be removed before they are moved. -/
theorem moved_without (gone drop : FilePath → Bool)
    (h : ∀ r ∈ t.rows, drop (mv.place M r.1) = gone r.1) :
    (t.moved mv M).without drop = (t.without gone).moved mv M := by
  simp only [moved, FileTree.without, List.filter_map, mk.injEq]
  refine congrArg _ (List.filter_congr fun r hr => ?_)
  rw [Function.comp_apply, h r hr]

/-- No unit of the tree is moved to the path or below it. -/
def Moves.Away (mv : Moves) (t : FileTree β) (p : FilePath) : Prop :=
  ∀ u, mv.Unit t u → ∀ q, mv.target u ++ q ≠ p

/-- At such a path there is what was there, until its unit is moved. -/
theorem mem_moved_away (hp : mv.Away t p) {n : FileNode β} :
    (p, n) ∈ (t.moved mv M).rows ↔ (p, n) ∈ t.rows ∧ ∀ u, mv.unit p = some u → M u = false := by
  rw [mem_moved]
  constructor
  · rintro ⟨r, hr, heq⟩
    obtain ⟨hplace, rfl⟩ := Prod.mk.inj heq
    rcases place_cases mv M r.1 with hsame | ⟨u, hu, -, hmoved⟩
    · rw [hsame] at hplace
      refine ⟨hplace ▸ hr, fun u hu => Bool.eq_false_iff.2 fun hM => ?_⟩
      rw [← hplace] at hu
      rw [place_moved hu hM] at hsame
      exact hp u ⟨r, hr, hu⟩ _ (hsame.trans hplace)
    · rw [hmoved] at hplace
      exact absurd hplace (hp u ⟨r, hr, hu⟩ _)
  · rintro ⟨hr, hM⟩
    refine ⟨(p, n), hr, ?_⟩
    cases hunit : mv.unit p with
    | none => rw [place_none hunit]
    | some u => rw [place_unmoved hunit (hM u hunit)]

end Moved

end FileTree
