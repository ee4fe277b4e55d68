import Mathlib.Data.List.Infix
import Solo.Store.Promote

/-!
# The layout that is promoted

`LegacyLayout` says of a data directory that it holds a library under `tenants/` whose entries are
not in each other's way or in that of the rest. The promotion is then a row of moves, whatever was
moved already: `moves` are the units it moves and where to (`moves_fit`), `treeAt` is the tree once
some are moved and some entries are gone.
-/

namespace Solo

namespace Promote

/-- What is moved in one rename: the entries of `tenants/` and `tenants/default/`, and the files of
the registry. -/
def legacyUnit : FilePath → Option FilePath
  | [] => none
  | [name] => if isIndexName name then some [name] else none
  | dir :: name :: rest =>
    if dir = LEGACY_LIBRARY_SUBDIR then
      if name = "default" then rest.head?.map fun entry => [dir, name, entry] else some [dir, name]
    else none

/-- The name of an entry of `tenants/` in the data directory. -/
def rootName (name : String) : String :=
  (suffixes.find? fun suffix => name = LEGACY_DEFAULT_DB_FILENAME ++ suffix).elim name fun suffix =>
    COMMUNITY_DB_FILENAME ++ suffix

def legacyTarget : FilePath → FilePath
  | [_, _, entry] => [entry]
  | [_, name] => [rootName name]
  | p => quarantineDir ++ p

def moves : FileTree.Moves := ⟨legacyUnit, legacyTarget⟩

/-- The unit is of the library, not of the registry. -/
def isLegacy (u : FilePath) : Bool := u.head? = some LEGACY_LIBRARY_SUBDIR

variable {β : Type}

/-- A data directory of the previous layout. -/
structure LegacyLayout (t : FileTree β) : Prop where
  nodup : (t.rows.map Prod.fst).Nodup
  closed : ∀ r ∈ t.rows, ∀ p ∈ r.1.inits, p ≠ [] → t.has p = true
  leaf : ∀ r ∈ t.rows, ∀ r' ∈ t.rows, r'.2.isDir = false → r'.1 <+: r.1 → r'.1 = r.1
  library : t.isFile (legacyDefaultDb "") = true
  sidecars : ∀ r ∈ t.rows, r.1 = legacyDefaultDb "-wal" ∨ r.1 = legacyDefaultDb "-shm" →
    r.2.isDir = false
  index : ∀ r ∈ t.rows, ∀ name ∈ r.1.head?, isIndexName name = true → r.2.isDir = false
  nested : ∀ r ∈ t.rows, r.1 = nestedDefault → r.2.isDir = true
  nestedLibrary : ∀ r ∈ t.rows, ∀ name ∈ r.1[2]?, nestedDefault <+: r.1 → isLibraryName name = false
  extra : ∀ r ∈ t.rows, r.1.length = 2 → legacyDir <+: r.1 → r.2.isDir = false → ∀ name ∈ r.1[1]?,
    pathExtension name.toList = some "db".toList → name = LEGACY_DEFAULT_DB_FILENAME
  clear : ∀ r ∈ t.rows, ∀ u ∈ legacyUnit r.1, isLegacy u = true → ∀ name ∈ (legacyTarget u).head?,
    name ≠ LEGACY_LIBRARY_SUBDIR ∧ name ≠ "migration-retired" ∧ isIndexName name = false ∧
      ∀ r' ∈ t.rows, r'.1.head? ≠ some name
  distinct : ∀ r ∈ t.rows, ∀ r' ∈ t.rows, ∀ u ∈ legacyUnit r.1, ∀ u' ∈ legacyUnit r'.1,
    isLegacy u = true → isLegacy u' = true → legacyTarget u = legacyTarget u' → u = u'
  retired : ∀ r ∈ t.rows, r.1.head? ≠ some "migration-retired"

/-- With the quarantine directory, which is there as soon as it is not gone. -/
def withRetired (t : FileTree β) : FileTree β := ⟨t.rows ++ [(quarantineDir, .dir)]⟩

/-- The tree once some entries are gone and some units are moved. -/
def treeAt (t : FileTree β) (gone M : FilePath → Bool) : FileTree β :=
  ((withRetired t).without gone).moved moves M

section Units

variable {p u : FilePath}

theorem legacyUnit_eq_some (h : legacyUnit p = some u) :
    (∃ name, isIndexName name = true ∧ p = [name] ∧ u = [name]) ∨
    (∃ name rest, name ≠ "default" ∧ p = LEGACY_LIBRARY_SUBDIR :: name :: rest ∧
      u = [LEGACY_LIBRARY_SUBDIR, name]) ∨
    ∃ entry rest, p = LEGACY_LIBRARY_SUBDIR :: "default" :: entry :: rest ∧ u = nestedDefault ++
    [entry] := by
  rcases p with _ | ⟨dir, _ | ⟨name, rest⟩⟩
  · cases h
  · obtain ⟨hname, h⟩ := Option.ite_none_right_eq_some.1 h
    exact .inl ⟨dir, hname, rfl, (Option.some.inj h).symm⟩
  · obtain ⟨rfl, h⟩ := Option.ite_none_right_eq_some.1 h
    split at h
    · next hname =>
      subst hname
      obtain ⟨entry, hentry, rfl⟩ := Option.map_eq_some_iff.1 h
      obtain ⟨rest, rfl⟩ := List.head?_eq_some_iff.1 hentry
      exact .inr (.inr ⟨entry, rest, rfl, rfl⟩)
    · next hname => exact .inr (.inl ⟨name, rest, hname, rfl, (Option.some.inj h).symm⟩)

theorem legacyUnit_index {name : String} (h : isIndexName name = true) :
    legacyUnit [name] = some [name] := if_pos h

theorem legacyUnit_entry {name : String} (h : name ≠ "default") (rest : List String) :
    legacyUnit (LEGACY_LIBRARY_SUBDIR :: name :: rest) = some [LEGACY_LIBRARY_SUBDIR, name] := by
  simp [legacyUnit, h]

theorem legacyUnit_nested (entry : String) (rest : List String) :
    legacyUnit (LEGACY_LIBRARY_SUBDIR :: "default" :: entry :: rest) =
    some (nestedDefault ++ [entry]) := by
  simp [legacyUnit, nestedDefault]

/-- The kinds of units. -/
theorem unit_cases {t : FileTree β} (h : moves.Unit t u) :
    (∃ name, isIndexName name = true ∧ u = [name]) ∨
    (∃ name, name ≠ "default" ∧ u = [LEGACY_LIBRARY_SUBDIR, name]) ∨
      ∃ entry, u = nestedDefault ++ [entry] := by
  obtain ⟨r, -, hr⟩ := h
  rcases legacyUnit_eq_some hr with ⟨name, hname, -, rfl⟩ | ⟨name, rest, hname, -, rfl⟩ | ⟨entry,
    rest, -, rfl⟩
  · exact .inl ⟨name, hname, rfl⟩
  · exact .inr (.inl ⟨name, hname, rfl⟩)
  · exact .inr (.inr ⟨entry, rfl⟩)

theorem isIndexName_tenants : isIndexName LEGACY_LIBRARY_SUBDIR = false := by decide

theorem isIndexName_retired : isIndexName "migration-retired" = false := by decide

theorem not_isLegacy_index {name : String} (h : isIndexName name = true) :
    isLegacy [name] = false := by
  refine Bool.eq_false_iff.2 fun hl => ?_
  have hname : name = LEGACY_LIBRARY_SUBDIR := by simpa [isLegacy] using hl
  rw [hname, isIndexName_tenants] at h
  cases h

/-- A unit of the library goes to a name of the data directory, one of the registry into
quarantine. -/
theorem target_cases {t : FileTree β} (h : moves.Unit t u) :
    (isLegacy u = true ∧ ∃ name, legacyTarget u = [name]) ∨
      ∃ name, isIndexName name = true ∧ u = [name] ∧ legacyTarget u = quarantineDir ++ [name] := by
  rcases unit_cases h with ⟨name, hname, rfl⟩ | ⟨name, -, rfl⟩ | ⟨entry, rfl⟩
  · exact .inr ⟨name, hname, rfl, rfl⟩
  · exact .inl ⟨by simp [isLegacy], rootName name, rfl⟩
  · exact .inl ⟨by simp [isLegacy, nestedDefault], entry, rfl⟩

end Units

namespace LegacyLayout

variable {t : FileTree β} {u u' : FilePath} {name : String}

theorem mem_withRetired {r : FilePath × FileNode β} : r ∈ (withRetired t).rows ↔ r ∈ t.rows ∨
    r = (quarantineDir, .dir) := by
  simp [withRetired]

theorem unit_withRetired (h : moves.Unit (withRetired t) u) : moves.Unit t u := by
  obtain ⟨r, hr, hu⟩ := h
  rcases mem_withRetired.1 hr with hr | rfl
  · exact ⟨r, hr, hu⟩
  · have hnone : legacyUnit quarantineDir = none := by decide
    exact absurd (hnone.symm.trans hu) (by simp)

theorem clear_of_unit (h : LegacyLayout t) (hu : moves.Unit t u) (hl : isLegacy u = true)
    (ht : legacyTarget u = [name]) :
    name ≠ LEGACY_LIBRARY_SUBDIR ∧ name ≠ "migration-retired" ∧ isIndexName name = false ∧
      ∀ r' ∈ t.rows, r'.1.head? ≠ some name := by
  obtain ⟨r, hr, hru⟩ := hu
  exact h.clear r hr u hru hl name (by rw [ht]; rfl)

theorem row_of_unit (h : LegacyLayout t) (hu : moves.Unit t u) : ∃ r ∈ t.rows, r.1 = u := by
  obtain ⟨r, hr, hru⟩ := hu
  have hprefix {p : FilePath} (hp : p <+: r.1) (hne : p ≠ []) : ∃ r ∈ t.rows, r.1 = p :=
    FileTree.has_iff.1 (h.closed r hr p ((List.mem_inits _ _).2 hp) hne)
  rcases legacyUnit_eq_some hru with ⟨name, -, hp, rfl⟩ | ⟨name, rest, -, hp, rfl⟩ | ⟨entry, rest,
    hp, rfl⟩
  · exact ⟨r, hr, hp⟩
  · exact hprefix (hp ▸ ⟨rest, rfl⟩) (by simp)
  · exact hprefix (hp ▸ ⟨rest, rfl⟩) (by simp)

/-- Below a unit there is the unit only. -/
theorem below_unit (h : LegacyLayout t) (hu : moves.Unit t u) {r : FilePath × FileNode β}
    (hr : r ∈ t.rows) : u <+: r.1 ↔ legacyUnit r.1 = some u := by
  constructor
  · rintro ⟨rest, hrest⟩
    rcases unit_cases hu with ⟨name, hname, rfl⟩ | ⟨name, hname, rfl⟩ | ⟨entry, rfl⟩
    · obtain ⟨r', hr', hpath⟩ := h.row_of_unit hu
      have hfile := h.index r' hr' name (by rw [hpath]; rfl) hname
      rw [← h.leaf r hr r' hr' hfile (by rw [hpath]; exact ⟨rest, hrest⟩), hpath]
      exact legacyUnit_index hname
    · rw [← hrest]
      exact legacyUnit_entry hname rest
    · rw [← hrest]
      exact legacyUnit_nested entry rest
  · intro hru
    rcases legacyUnit_eq_some hru with ⟨name, -, hp, rfl⟩ | ⟨name, rest, -, hp, rfl⟩ | ⟨entry, rest,
      hp, rfl⟩
    · rw [hp]
    · rw [hp]
      exact ⟨rest, rfl⟩
    · rw [hp]
      exact ⟨rest, rfl⟩

theorem unit_head (h : moves.Unit t u) : ∃ n rest, u = n :: rest ∧
    (isIndexName n = true ∨ n = LEGACY_LIBRARY_SUBDIR) := by
  rcases unit_cases h with ⟨name, hname, rfl⟩ | ⟨name, -, rfl⟩ | ⟨entry, rfl⟩
  · exact ⟨name, [], rfl, .inl hname⟩
  · exact ⟨_, _, rfl, .inr rfl⟩
  · exact ⟨_, _, rfl, .inr rfl⟩

/-- What is moved goes to where nothing is. -/
theorem target_head (h : LegacyLayout t) (hu : moves.Unit t u) :
    ∃ n rest, legacyTarget u = n :: rest ∧
    n ≠ LEGACY_LIBRARY_SUBDIR ∧ isIndexName n = false ∧ ∀ r ∈ t.rows, r.1.head? ≠ some n := by
  rcases target_cases hu with ⟨hl, name, ht⟩ | ⟨name, -, -, ht⟩
  · obtain ⟨hdir, -, hindex, hfree⟩ := h.clear_of_unit hu hl ht
    exact ⟨name, [], ht, hdir, hindex, hfree⟩
  · exact ⟨"migration-retired", [name], ht, by decide, isIndexName_retired, h.retired⟩

theorem not_prefix_target (h : LegacyLayout t) (hu : moves.Unit t u) (hu' : moves.Unit t u')
    (q : FilePath) : ¬ u <+: legacyTarget u' ++ q := by
  obtain ⟨n, rest, rfl, hn⟩ := unit_head hu
  obtain ⟨n', rest', ht, hdir, hindex, -⟩ := h.target_head hu'
  rw [ht, List.cons_append, List.cons_prefix_cons]
  rintro ⟨rfl, -⟩
  rcases hn with hn | hn
  · rw [hn] at hindex
    cases hindex
  · exact hdir hn

theorem targets_apart (h : LegacyLayout t) (hu : moves.Unit t u) (hu' : moves.Unit t u')
    {q q' : FilePath} (heq : legacyTarget u ++ q = legacyTarget u' ++ q') : u = u' := by
  rcases target_cases hu with ⟨hl, name, ht⟩ | ⟨name, -, rfl, ht⟩ <;>
    rcases target_cases hu' with ⟨hl', name', ht'⟩ | ⟨name', -, rfl, ht'⟩ <;>
    rw [ht, ht'] at heq
  · obtain rfl := (List.cons.inj heq).1
    obtain ⟨r, hr, hru⟩ := hu
    obtain ⟨r', hr', hru'⟩ := hu'
    exact h.distinct r hr r' hr' u hru u' hru' hl hl' (ht.trans ht'.symm)
  · exact absurd (List.cons.inj heq).1 (h.clear_of_unit hu hl ht).2.1
  · exact absurd (List.cons.inj heq).1.symm (h.clear_of_unit hu' hl' ht').2.1
  · rw [(List.cons.inj (List.cons.inj heq).2).1]

/-- The units can be moved one by one, in any order. -/
theorem moves_fit (h : LegacyLayout t) : moves.Fits (withRetired t) where
  below u hu r hr := by
    rcases mem_withRetired.1 hr with hr | rfl
    · exact h.below_unit (unit_withRetired hu) hr
    · obtain ⟨n, rest, rfl, hn⟩ := unit_head (unit_withRetired hu)
      refine ⟨fun hp => ?_, fun hp => by cases hp⟩
      obtain ⟨rfl, -⟩ := List.cons_prefix_cons.1 hp
      rcases hn with hn | hn
      · rw [isIndexName_retired] at hn
        cases hn
      · exact absurd hn (by decide)
  self u hu := by
    obtain ⟨r, hr, hru⟩ := h.row_of_unit (unit_withRetired hu)
    exact ⟨r, mem_withRetired.2 (.inl hr), hru⟩
  outside u u' hu hu' q := h.not_prefix_target (unit_withRetired hu) (unit_withRetired hu') q
  fresh u hu r hr hp := by
    rcases mem_withRetired.1 hr with hr | rfl
    · obtain ⟨n, rest, ht, -, -, hfree⟩ := h.target_head (unit_withRetired hu)
      obtain ⟨q, hq⟩ := hp
      refine hfree r hr ?_
      rw [← hq]
      show (legacyTarget u ++ q).head? = some n
      rw [ht]
      rfl
    · rcases target_cases (unit_withRetired hu) with ⟨hl, name, ht⟩ | ⟨name, -, -, ht⟩
      · refine (h.clear_of_unit (unit_withRetired hu) hl ht).2.1 ?_
        obtain ⟨q, hq⟩ := hp
        have hq' : legacyTarget u ++ q = quarantineDir := hq
        rw [ht] at hq'
        exact (List.cons.inj hq').1
      · have hlength := hp.length_le
        have ht' : moves.target u = quarantineDir ++ [name] := ht
        rw [ht'] at hlength
        simp [quarantineDir] at hlength
  apart u u' hu hu' hne q q' heq :=
  hne (h.targets_apart (unit_withRetired hu) (unit_withRetired hu') heq)

/-! ### The tree on the way -/

/-- What can be gone: the directories once they are empty, the files of the registry, and the
quarantine as long as nothing is in it. -/
def Spent (gone : FilePath → Bool) : Prop :=
  ∀ p, gone p = true → p = nestedDefault ∨ p = legacyDir ∨ p = quarantineDir ∨
    ∃ name, isIndexName name = true ∧ p = [name]

/-- The path is in the previous layout, where nothing is moved to. -/
def Home (p : FilePath) : Prop :=
  ∃ n rest, p = n :: rest ∧ (isIndexName n = true ∨ n = LEGACY_LIBRARY_SUBDIR)

variable {gone M : FilePath → Bool} {p : FilePath} {n : FileNode β}

theorem legacyUnit_unit (hu : moves.Unit t u) : legacyUnit u = some u := by
  rcases unit_cases hu with ⟨name, hname, rfl⟩ | ⟨name, hname, rfl⟩ | ⟨entry, rfl⟩
  · exact legacyUnit_index hname
  · exact legacyUnit_entry hname []
  · exact legacyUnit_nested entry []

theorem kept_of_legacy (hs : Spent gone) (hu : moves.Unit t u) (hl : isLegacy u = true) :
    gone u = false := by
  refine Bool.eq_false_iff.2 fun hg => ?_
  have hself := legacyUnit_unit hu
  rcases hs u hg with rfl | rfl | rfl | ⟨name, hname, rfl⟩
  · cases hself
  · have hnone : legacyUnit legacyDir = none := by decide
    rw [hnone] at hself
    cases hself
  · cases hself
  · rw [not_isLegacy_index hname] at hl
    cases hl

theorem unit_of_without (hu : moves.Unit ((withRetired t).without gone) u) : moves.Unit t u := by
  obtain ⟨r, hr, hru⟩ := hu
  exact unit_withRetired ⟨r, (FileTree.mem_without.1 hr).1, hru⟩

theorem unit_left (h : LegacyLayout t) (hu : moves.Unit t u) (hg : gone u = false) :
    moves.Unit ((withRetired t).without gone) u := by
  obtain ⟨r, hr, rfl⟩ := h.row_of_unit hu
  exact ⟨r, FileTree.mem_without.2 ⟨mem_withRetired.2 (.inl hr), hg⟩, legacyUnit_unit hu⟩

theorem fits (h : LegacyLayout t) (hs : Spent gone) :
    moves.Fits ((withRetired t).without gone) := by
  refine h.moves_fit.without fun u hu => ?_
  have hunit := unit_of_without hu
  obtain ⟨r, hr, hru⟩ := hu
  rcases legacyUnit_eq_some hru with ⟨name, -, hp, rfl⟩ | ⟨name, rest, hname, -, rfl⟩ | ⟨entry,
    rest, -, rfl⟩
  · rw [← hp]
    exact (FileTree.mem_without.1 hr).2
  · exact kept_of_legacy hs hunit (by simp [isLegacy])
  · exact kept_of_legacy hs hunit (by simp [isLegacy, nestedDefault])

theorem home_of_unit (hu : moves.Unit t u) : Home u := unit_head hu

theorem away_of_home (h : LegacyLayout t) (hp : Home p) : moves.Away ((withRetired t).without gone)
    p := by
  intro u hu q heq
  obtain ⟨n, rest, ht, hdir, hindex, -⟩ := h.target_head (unit_of_without hu)
  obtain ⟨n', rest', rfl, hn⟩ := hp
  have heq' : legacyTarget u ++ q = n' :: rest' := heq
  rw [ht] at heq'
  obtain rfl := (List.cons.inj heq').1
  rcases hn with hn | hn
  · rw [hn] at hindex
    cases hindex
  · exact hdir hn

/-- What there is of the previous layout. -/
theorem mem_treeAt (h : LegacyLayout t) (hp : Home p) :
    (p, n) ∈ (treeAt t gone M).rows ↔ (p, n) ∈ t.rows ∧ gone p = false ∧
    ∀ u, legacyUnit p = some u → M u = false := by
  have hretired : p ≠ quarantineDir := by
    obtain ⟨n', rest, rfl, hn⟩ := hp
    intro heq
    obtain rfl := (List.cons.inj heq).1
    rcases hn with hn | hn
    · rw [isIndexName_retired] at hn
      cases hn
    · exact absurd hn (by decide)
  rw [treeAt, FileTree.mem_moved_away (h.away_of_home hp), FileTree.mem_without, mem_withRetired,
    and_assoc]
  simp only [Prod.mk.injEq, hretired, false_and, or_false]
  exact Iff.rfl

theorem mem_treeAt_unit (h : LegacyLayout t) (hu : moves.Unit t u) :
    (u, n) ∈ (treeAt t gone M).rows ↔ (u, n) ∈ t.rows ∧ gone u = false ∧ M u = false := by
  rw [h.mem_treeAt (home_of_unit hu), legacyUnit_unit hu]
  simp

theorem nodup_treeAt (h : LegacyLayout t) (hs : Spent gone) :
    ((treeAt t gone M).rows.map Prod.fst).Nodup := by
  refine (h.fits hs).nodup_moved (List.Nodup.sublist (List.filter_sublist.map _) ?_)
  rw [withRetired, List.map_append, List.nodup_append]
  refine ⟨h.nodup, List.nodup_singleton _, fun p hp q hq => ?_⟩
  obtain ⟨r, hr, rfl⟩ := List.mem_map.1 hp
  obtain rfl := List.mem_singleton.1 hq
  rintro hpath
  exact h.retired r hr (by rw [hpath]; rfl)

/-- The next rename. -/
theorem rename_treeAt (h : LegacyLayout t) (hs : Spent gone) (hu : moves.Unit t u)
    (hg : gone u = false) (hM : M u = false)
    (hparent : (treeAt t gone M).hasParent (legacyTarget u) = true) :
    (treeAt t gone M).rename? u (legacyTarget u) = some (treeAt t gone (FileTree.add M u)) :=
  (h.fits hs).rename_moved (h.unit_left hu hg) hM hparent

theorem not_has_target (h : LegacyLayout t) (hs : Spent gone) (hu : moves.Unit t u)
    (hg : gone u = false) (hM : M u = false) : (treeAt t gone M).has (legacyTarget u) = false :=
  (h.fits hs).not_has_target (h.unit_left hu hg) hM

/-- A unit that was moved is at its target. -/
theorem mem_target (hr : (u, n) ∈ t.rows) (hu : moves.Unit t u) (hg : gone u = false)
    (hM : M u = true) : (legacyTarget u, n) ∈ (treeAt t gone M).rows := by
  refine FileTree.mem_moved.2 ⟨(u, n), FileTree.mem_without.2 ⟨mem_withRetired.2 (.inl hr), hg⟩, ?_⟩
  have hplace : moves.place M u = moves.target u ++ u.drop u.length :=
    FileTree.place_moved (legacyUnit_unit hu) hM
  rw [List.drop_length, List.append_nil] at hplace
  exact Prod.ext hplace rfl

/-- A row that stays where it is goes away, and so do the entries of the tree before the moves. -/
theorem without_treeAt (h : LegacyLayout t) (hp : Home p)
    (hM : ∀ u, legacyUnit p = some u → M u = false) :
    (treeAt t gone M).without (fun q => q = p) = treeAt t (FileTree.add gone p) M := by
  have hplace : ∀ r ∈ ((withRetired t).without gone).rows,
      (decide (moves.place M r.1 = p)) = decide (r.1 = p) := by
    intro r hr
    rcases FileTree.place_cases moves M r.1 with hsame | ⟨u, hu, hMu, hmoved⟩
    · rw [hsame]
    · have haway : moves.place M r.1 ≠ p := by
        rw [hmoved]
        exact h.away_of_home hp u ⟨r, hr, hu⟩ _
      have hne : r.1 ≠ p := by
        rintro rfl
        rw [hM u hu] at hMu
        cases hMu
      rw [decide_eq_false haway, decide_eq_false hne]
  rw [treeAt, FileTree.moved_without (fun q => q = p) (fun q => q = p) hplace,
    FileTree.without_without]
  rfl

end LegacyLayout

end Promote

end Solo
