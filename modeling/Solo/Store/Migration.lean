import Mathlib.Logic.Function.Basic
import Solo.Lib.Run
import Solo.Lib.Table

/-!
# The migration runner (`migration.rs`)

Every process that opens the library migrates it, so several runners can be at it at the same time.
A runner reads the version once and then applies what is above it, each migration with its tracker
row in one `BEGIN IMMEDIATE` transaction; another runner may have been there in between, statements
fail and processes die.

`HistoryOf`: the database is the first one after some migrations from the start of the list, each
applied once, at the time its tracker row says. The row is what makes a second application fail.
`Inv` adds what a runner has seen of this.
-/

namespace Solo

structure Migration where
  version : Nat
  description : String
  deriving DecidableEq

def MIGRATIONS : List Migration :=
  [⟨1, "initial schema (v0): episodes + triples + steward outputs + pending_index + FTS"⟩,
    ⟨2, "triples.cluster_id FK + index for absorb→regen cascade"⟩,
    ⟨3, "documents + document_chunks + chunk_embeddings + pending_index.kind discriminator"⟩,
    ⟨5, "per-tenant audit_events table + indices (v0.8.0 P4)"⟩,
    ⟨6, "principal_subject on episodes + ingested_by_principal on document_chunks (v0.8.0 P5+P6)"⟩,
    ⟨7, "triples.source_episode_id FK + backfill from provenance_json (v0.8.1 P1)"⟩,
    ⟨10, "contradiction lifecycle fields for resolve/reopen flows"⟩,
    ⟨11, "Memory Inbox review state"⟩,
    ⟨12, "raw file assets plus document and memory attachment links"⟩,
    ⟨13, "encrypted retained asset blob metadata"⟩,
    ⟨14, "asset extraction status records"⟩,
    ⟨15, "triple quality reviews and entity aliases"⟩,
    ⟨16, "invalidate stale derived graph rows after triple quality gate rollout"⟩,
    ⟨17, "temporal relationship edge and evidence tables"⟩,
    ⟨18, "memory claims, retrieval logs, revisions, and entity review operations"⟩,
    ⟨19, "Community administrative audit log in the single Memory Library"⟩]

/-- The highest version of a list in order. -/
def lastVersion (ms : List Migration) : Nat := (ms.getLast?.map (·.version)).getD 0

def currentPerTenantSchemaVersion : Nat := lastVersion MIGRATIONS

/-- A row of `schema_migrations`. -/
structure MigrationRow where
  version : Nat
  description : String
  appliedAt : Int
  deriving DecidableEq

def MigrationRow.migration (r : MigrationRow) : Migration := ⟨r.version, r.description⟩

instance : Keyed MigrationRow where
  clash a b := a.version = b.version
  clash_comm a b := by simp [eq_comm]

/-- The tables other than the tracker, and the tracker once it is created. -/
structure MigratedDb (S : Type) where
  schema : S
  tracker : Option (Table MigrationRow)

inductive MigrationError
  | createTracker
  | currentVersion
  | migration (version : Nat)
  deriving DecidableEq

/-- Where `run_migrations_for_connection` stands. -/
inductive RunnerPc
  | opened
  | tracked
  | applying (highest : Nat) (todo : List Migration)
  | answered (r : Except MigrationError Nat)
  | gone

inductive MigrationEvent
  | step (i : Nat) (now : Int)
  | fail (i : Nat)
  | crash (i : Nat)

structure Migrating (S : Type) where
  db : MigratedDb S
  runners : Nat → RunnerPc

section Runner

variable {S : Type} (up : Nat → Int → S → Option S) (ms : List Migration)

namespace MigratedDb

def createTracker (db : MigratedDb S) : MigratedDb S :=
  { db with tracker := some (db.tracker.getD .empty) }

/-- `SELECT MAX(version)`, 0 for an empty tracker. -/
def currentVersionIn (db : MigratedDb S) : Option Nat :=
  db.tracker.map fun t => (t.rows.map (·.version)).max?.getD 0

/-- The transaction of a migration; nothing of it is left where a statement fails. -/
def applyOne (now : Int) (db : MigratedDb S) (m : Migration) : Option (MigratedDb S) := do
  let schema ← up m.version now db.schema
  let tracker ← db.tracker
  let tracker ← tracker.insert? ⟨m.version, m.description, now⟩
  some ⟨schema, some tracker⟩

end MigratedDb

/-- The next statement or transaction of a runner. -/
def runnerStep (now : Int) (db : MigratedDb S) : RunnerPc → MigratedDb S × RunnerPc
  | .opened => (db.createTracker, .tracked)
  | .tracked =>
    match db.currentVersionIn with
    | none => (db, .answered (.error .currentVersion))
    | some current => (db, .applying current (ms.filter fun m => current < m.version))
  | .applying highest [] => (db, .answered (.ok highest))
  | .applying _ (m :: todo) =>
    match db.applyOne up now m with
    | none => (db, .answered (.error (.migration m.version)))
    | some db => (db, .applying m.version todo)
  | pc => (db, pc)

/-- The reply of a runner whose next statement fails. -/
def RunnerPc.failed : RunnerPc → RunnerPc
  | .opened => .answered (.error .createTracker)
  | .tracked => .answered (.error .currentVersion)
  | .applying _ (m :: _) => .answered (.error (.migration m.version))
  | pc => pc

namespace Migrating

def step (s : Migrating S) : MigrationEvent → Migrating S
  | .step i now =>
    ⟨(runnerStep up ms now s.db (s.runners i)).1,
      Function.update s.runners i (runnerStep up ms now s.db (s.runners i)).2⟩
  | .fail i => { s with runners := Function.update s.runners i (s.runners i).failed }
  | .crash i => { s with runners := Function.update s.runners i .gone }

/-- A database that was never migrated. -/
def fresh (s₀ : S) : Migrating S := ⟨⟨s₀, none⟩, fun _ => .opened⟩

end Migrating

/-- The migrations of some tracker rows, each at its time. -/
def replay (rows : List MigrationRow) (s : S) : Option S :=
  rows.foldlM (fun s r => up r.version r.appliedAt s) s

def MigratedDb.rows (db : MigratedDb S) : List MigrationRow := (db.tracker.getD .empty).rows

/-- The database after the migrations `done`. -/
structure MigratedDb.HistoryOf (s₀ : S) (done : List Migration) (db : MigratedDb S) : Prop where
  rows : db.rows.map (·.migration) = done
  schema : replay up db.rows s₀ = some db.schema

/-- Every migration goes through after those before it. -/
def Applies (s₀ : S) : Prop :=
  ∀ pre m post, ms = pre ++ m :: post → ∀ rows s, rows.map (·.migration) = pre →
    replay up rows s₀ = some s → ∀ now, (up m.version now s).isSome

/-- The versions ascend, from 1. -/
structure Ascending (ms : List Migration) : Prop where
  sorted : ms.Pairwise fun a b => a.version < b.version
  positive : ∀ m ∈ ms, 0 < m.version

/-- What a runner has seen is still so. -/
def RunnerPc.Holds (done : List Migration) (trackerExists : Bool) : RunnerPc → Prop
  | .opened | .gone | .answered (.error _) => True
  | .tracked => trackerExists = true
  | .applying highest todo =>
    trackerExists = true ∧ ∃ seen, seen <+: done ∧ ms = seen ++ todo ∧ highest = lastVersion seen
  | .answered (.ok highest) => done = ms ∧ highest = lastVersion ms

structure Migrating.Inv (s₀ : S) (s : Migrating S) (done : List Migration) : Prop where
  early : done <+: ms
  history : s.db.HistoryOf up s₀ done
  runners : ∀ i, (s.runners i).Holds ms done s.db.tracker.isSome

end Runner

theorem MIGRATIONS_ascending : Ascending MIGRATIONS := ⟨by decide, by decide⟩

section Version

variable {ms done rest : List Migration}

theorem lastVersion_concat (m : Migration) : lastVersion (done ++ [m]) = m.version := by
  simp [lastVersion]

theorem Ascending.le_lastVersion (h : Ascending done) :
    ∀ m ∈ done, m.version ≤ lastVersion done := by
  intro m hm
  rcases List.eq_nil_or_concat done with rfl | ⟨pre, l, rfl⟩
  · cases hm
  · rw [List.concat_eq_append] at h hm ⊢
    rw [lastVersion_concat]
    rcases List.mem_append.1 hm with hm | hm
    · exact Nat.le_of_lt ((List.pairwise_append.1 h.sorted).2.2 m hm l List.mem_cons_self)
    · rw [List.mem_singleton.1 hm]

theorem Ascending.lastVersion_lt (h : Ascending (done ++ rest)) :
    ∀ m ∈ rest, lastVersion done < m.version := by
  intro m hm
  rcases List.eq_nil_or_concat done with rfl | ⟨pre, l, rfl⟩
  · exact h.positive m hm
  · rw [List.concat_eq_append] at h ⊢
    rw [lastVersion_concat]
    exact (List.pairwise_append.1 h.sorted).2.2 l (by simp) m hm

theorem Ascending.left (h : Ascending (done ++ rest)) : Ascending done :=
  ⟨(List.pairwise_append.1 h.sorted).1, fun m hm => h.positive m (List.mem_append_left _ hm)⟩

/-- What is above the version of a history is what has not been applied. -/
theorem Ascending.filter_above (h : Ascending (done ++ rest)) :
    (done ++ rest).filter (fun m => lastVersion done < m.version) = rest := by
  have hleft : done.filter (fun m => lastVersion done < m.version) = [] :=
    List.filter_eq_nil_iff.2 fun m hm => by simpa using h.left.le_lastVersion m hm
  have hright : rest.filter (fun m => lastVersion done < m.version) = rest :=
    List.filter_eq_self.2 fun m hm => by simpa using h.lastVersion_lt m hm
  rw [List.filter_append, hleft, hright, List.nil_append]

end Version

section Steps

variable {S : Type} {up : Nat → Int → S → Option S} {ms done rest todo : List Migration} {s₀ : S}
  {db db' : MigratedDb S} {m : Migration} {now : Int}

theorem MigratedDb.rows_createTracker (db : MigratedDb S) : db.createTracker.rows = db.rows := by
  simp [rows, createTracker]

theorem MigratedDb.HistoryOf.createTracker (h : db.HistoryOf up s₀ done) :
    db.createTracker.HistoryOf up s₀ done := by
  refine ⟨?_, ?_⟩
  · rw [rows_createTracker]
    exact h.rows
  · rw [rows_createTracker]
    exact h.schema

theorem MigratedDb.HistoryOf.version_mem (h : db.HistoryOf up s₀ done) :
    db.rows.map (·.version) = done.map (·.version) := by
  rw [← h.rows, List.map_map]
  rfl

theorem MigratedDb.HistoryOf.currentVersionIn (h : db.HistoryOf up s₀ done) (hasc : Ascending done)
    (htracker : db.tracker.isSome = true) : db.currentVersionIn = some (lastVersion done) := by
  obtain ⟨t, ht⟩ := Option.isSome_iff_exists.1 htracker
  have hrows : t.rows.map (·.version) = done.map (·.version) := by
    rw [← h.version_mem, MigratedDb.rows, ht]
    rfl
  rw [MigratedDb.currentVersionIn, ht, Option.map_some, hrows]
  rcases List.eq_nil_or_concat done with rfl | ⟨pre, l, rfl⟩
  · rfl
  · have hmax : ((pre.concat l).map (·.version)).max? = some (lastVersion (pre.concat l)) := by
      refine List.max?_eq_some_iff.2 ⟨?_, fun v hv => ?_⟩
      · rw [List.concat_eq_append, lastVersion_concat]
        simp
      · obtain ⟨m, hm, rfl⟩ := List.mem_map.1 hv
        exact hasc.le_lastVersion m hm
    rw [hmax]
    rfl

theorem replay_concat (rows : List MigrationRow) (r : MigrationRow) (s : S) :
    replay up (rows ++ [r]) s = (replay up rows s).bind fun s => up r.version r.appliedAt s := by
  simp [replay, List.foldlM_append]

/-- A transaction that was committed adds its migration to the history, and that is the next one. -/
theorem MigratedDb.HistoryOf.applyOne (h : db.HistoryOf up s₀ done)
    (happly : db.applyOne up now m = some db') :
    db'.HistoryOf up s₀ (done ++ [m]) ∧ m.version ∉ done.map (·.version) ∧
    db'.tracker.isSome = true := by
  unfold MigratedDb.applyOne at happly
  obtain ⟨schema, hup, happly⟩ := Option.bind_eq_some_iff.1 happly
  obtain ⟨t, ht, happly⟩ := Option.bind_eq_some_iff.1 happly
  obtain ⟨t', hins, happly⟩ := Option.bind_eq_some_iff.1 happly
  obtain rfl := Option.some.inj happly
  have hrows : db.rows = t.rows := by
    rw [MigratedDb.rows, ht]
    rfl
  have hrows' : MigratedDb.rows ⟨schema, some t'⟩ = db.rows ++
      [⟨m.version, m.description, now⟩] := by
    rw [hrows, ← Table.insert?_rows hins]
    rfl
  refine ⟨⟨?_, ?_⟩, fun hmem => ?_, rfl⟩
  · rw [hrows', List.map_append, h.rows]
    rfl
  · rw [hrows', replay_concat, h.schema]
    exact hup
  · rw [← h.version_mem, hrows] at hmem
    obtain ⟨r, hr, hversion⟩ := List.mem_map.1 hmem
    have hfresh := Table.insert?_fresh hins hr
    simp [Keyed.clash, hversion] at hfresh

/-- The next migration goes through. -/
theorem MigratedDb.HistoryOf.applyOne_next (h : db.HistoryOf up s₀ done)
    (hasc : Ascending (done ++ m :: rest))
    (happlies : Applies up (done ++ m :: rest) s₀) (htracker : db.tracker.isSome = true)
    (now : Int) : ∃ db', db.applyOne up now m = some db' := by
  obtain ⟨t, ht⟩ := Option.isSome_iff_exists.1 htracker
  obtain ⟨schema, hup⟩ :=
    Option.isSome_iff_exists.1 (happlies done m rest rfl db.rows db.schema h.rows h.schema now)
  have hins : t.insert? ⟨m.version, m.description, now⟩ ≠ none := by
    intro hnone
    obtain ⟨r, hr, hclash⟩ := Table.insert?_eq_none.1 hnone
    have hversion : r.version = m.version := by simpa [Keyed.clash] using hclash
    have hmem : r.migration ∈ done := by
      rw [← h.rows, MigratedDb.rows, ht]
      exact List.mem_map_of_mem hr
    have hlt := (List.pairwise_append.1 hasc.sorted).2.2 _ hmem m List.mem_cons_self
    exact absurd hversion (Nat.ne_of_lt hlt)
  obtain ⟨t', ht'⟩ := Option.ne_none_iff_exists'.1 hins
  refine ⟨⟨schema, some t'⟩, ?_⟩
  simp [MigratedDb.applyOne, hup, ht, ht']

/-- What a runner has seen stays when more migrations are applied. -/
theorem RunnerPc.Holds.mono {pc : RunnerPc} {b b' : Bool} {more : List Migration}
    (h : pc.Holds ms done b)
    (hearly : done ++ more <+: ms) (hb : b = true → b' = true) : pc.Holds ms (done ++ more) b' := by
  cases pc with
  | opened => trivial
  | gone => trivial
  | tracked => exact hb h
  | applying highest todo =>
    obtain ⟨ht, seen, hseen, hms, hhighest⟩ := h
    exact ⟨hb ht, seen, hseen.trans (List.prefix_append _ _), hms, hhighest⟩
  | answered r =>
    cases r with
    | error => trivial
    | ok highest =>
      obtain ⟨rfl, hhighest⟩ := h
      refine ⟨List.IsPrefix.eq_of_length_le hearly ?_, hhighest⟩
      simp

theorem Migrating.Inv.update {s : Migrating S} {i : Nat} {pc : RunnerPc} (h : s.Inv up ms s₀ done)
    (hpc : pc.Holds ms done s.db.tracker.isSome) :
    Migrating.Inv up ms s₀ { s with runners := Function.update s.runners i pc } done := by
  refine ⟨h.early, h.history, fun j => ?_⟩
  by_cases hj : j = i
  · subst hj
    show (Function.update s.runners j pc j).Holds _ _ _
    rw [Function.update_self]
    exact hpc
  · show (Function.update s.runners i pc j).Holds _ _ _
    rw [Function.update_of_ne hj]
    exact h.runners j

/-- A step of a runner, by what it does to the history. -/
theorem Migrating.Inv.stepRunner {s : Migrating S} {i : Nat} (hasc : Ascending ms)
    (h : s.Inv up ms s₀ done) :
    ∃ more, Migrating.Inv up ms s₀ (s.step up ms (.step i now)) (done ++ more) := by
  have hi := h.runners i
  have hkept (hdb : (runnerStep up ms now s.db (s.runners i)).1 = s.db)
      (hpc : (runnerStep up ms now s.db (s.runners i)).2.Holds ms done s.db.tracker.isSome) :
      ∃ more, Migrating.Inv up ms s₀ (s.step up ms (.step i now)) (done ++ more) := by
    refine ⟨[], ?_⟩
    rw [List.append_nil, Migrating.step, hdb]
    exact h.update hpc
  cases hpc : s.runners i with
  | opened =>
    refine ⟨[], ?_⟩
    rw [List.append_nil]
    have hinv : Migrating.Inv up ms s₀ ⟨s.db.createTracker, s.runners⟩ done := by
      refine ⟨h.early, h.history.createTracker, fun j => ?_⟩
      have hearly : done ++ [] <+: ms := by
        rw [List.append_nil]
        exact h.early
      have hj : (s.runners j).Holds ms (done ++ []) true := (h.runners j).mono hearly fun _ => rfl
      rwa [List.append_nil] at hj
    rw [Migrating.step, hpc]
    exact hinv.update rfl
  | tracked =>
    rw [hpc] at hi
    obtain ⟨rest, rfl⟩ := h.early
    refine hkept ?_ ?_
    · rw [hpc, runnerStep, h.history.currentVersionIn hasc.left hi]
    · rw [hpc, runnerStep, h.history.currentVersionIn hasc.left hi]
      refine ⟨hi, done, List.prefix_refl _, ?_, rfl⟩
      rw [hasc.filter_above]
  | gone =>
    exact hkept (by rw [hpc]; rfl) (by rw [hpc]; trivial)
  | answered r =>
    rw [hpc] at hi
    exact hkept (by rw [hpc]; rfl) (by rw [hpc]; exact hi)
  | applying highest todo =>
    rw [hpc] at hi
    obtain ⟨htracker, seen, hseen, hms, hhighest⟩ := hi
    cases todo with
    | nil =>
      rw [List.append_nil] at hms
      subst hms
      refine hkept (by rw [hpc]; rfl) ?_
      rw [hpc]
      exact ⟨h.early.eq_of_length_le hseen.length_le, hhighest⟩
    | cons m todo =>
      cases happly : s.db.applyOne up now m with
      | none =>
        refine hkept ?_ ?_
        · rw [hpc, runnerStep, happly]
        · rw [hpc, runnerStep, happly]
          trivial
      | some db' =>
        obtain ⟨hhistory, hnew, htracker'⟩ := h.history.applyOne happly
        -- what it has seen is all there is: the migration is not in the history yet
        have hall : seen = done := by
          obtain ⟨k, rfl⟩ := hseen
          obtain ⟨rest, hrest⟩ := h.early
          cases k with
          | nil => rw [List.append_nil]
          | cons m' k =>
            rw [hms, List.append_assoc, List.append_cancel_left_eq, List.cons_append,
              List.cons.injEq] at hrest
            exact absurd (by simp [hrest.1]) hnew
        subst hall
        have hearly : seen ++ [m] <+: ms := ⟨todo, by simp [hms]⟩
        refine ⟨[m], ?_⟩
        have hinv : Migrating.Inv up ms s₀ ⟨db', s.runners⟩ (seen ++ [m]) :=
          ⟨hearly, hhistory, fun j => (h.runners j).mono hearly fun _ => htracker'⟩
        rw [Migrating.step, hpc, runnerStep, happly]
        exact hinv.update
          ⟨htracker', seen ++ [m], List.prefix_refl _, by simp [hms], (lastVersion_concat m).symm⟩

theorem RunnerPc.Holds.failed {pc : RunnerPc} {b : Bool} (h : pc.Holds ms done b) :
    pc.failed.Holds ms done b := by
  cases pc with
  | applying highest todo =>
    cases todo with
    | nil => exact h
    | cons m todo => trivial
  | answered r => exact h
  | _ => trivial

/-- Whatever happens next, the history is the same or longer. -/
theorem Migrating.Inv.step {s : Migrating S} (hasc : Ascending ms) (h : s.Inv up ms s₀ done)
    (e : MigrationEvent) : ∃ more, Migrating.Inv up ms s₀ (s.step up ms e) (done ++ more) := by
  cases e with
  | step i now => exact h.stepRunner hasc
  | fail i => exact ⟨[], by rw [List.append_nil]; exact h.update (h.runners i).failed⟩
  | crash i => exact ⟨[], by rw [List.append_nil]; exact h.update trivial⟩

theorem Migrating.Inv.fresh (up : Nat → Int → S → Option S) (ms : List Migration) (s₀ : S) :
    Migrating.Inv up ms s₀ (.fresh s₀) [] :=
  ⟨List.nil_prefix, ⟨rfl, rfl⟩, fun _ => trivial⟩

end Steps

namespace Migrating

section Runs

variable {S : Type} {up : Nat → Int → S → Option S} {ms done : List Migration} {s₀ : S}
  {s : Migrating S} {i : Nat}

theorem Inv.run (hasc : Ascending ms) (h : s.Inv up ms s₀ done) (es : List MigrationEvent) :
    ∃ more, Inv up ms s₀ (Run.run (Migrating.step up ms) s es) (done ++ more) := by
  induction es generalizing s done with
  | nil => exact ⟨[], by rwa [List.append_nil]⟩
  | cons e es ih =>
    obtain ⟨more, hstep⟩ := h.step hasc e
    obtain ⟨more', hrun⟩ := ih hstep
    exact ⟨more ++ more', by rwa [← List.append_assoc]⟩

theorem step_of_runnerStep (up : Nat → Int → S → Option S) (ms : List Migration) (now : Int)
    {db : MigratedDb S} {pc : RunnerPc} (h : runnerStep up ms now s.db (s.runners i) = (db, pc)) :
    (s.step up ms (.step i now)).runners i = pc ∧ (s.step up ms (.step i now)).db = db := by
  rw [Migrating.step, h]
  exact ⟨Function.update_self _ _ _, rfl⟩

/-- A step after which the history is known. -/
theorem Inv.step_to {done' : List Migration} {e : MigrationEvent} (hasc : Ascending ms)
    (h : s.Inv up ms s₀ done)
    (hdb : (s.step up ms e).db.HistoryOf up s₀ done') : Inv up ms s₀ (s.step up ms e) done' := by
  obtain ⟨more, hinv⟩ := h.step hasc e
  rwa [← hdb.rows, hinv.history.rows]

/-- A runner that has answered does nothing more. -/
theorem run_answered {r : Except MigrationError Nat} (hpc : s.runners i = .answered r)
    (nows : List Int) : Run.run (Migrating.step up ms) s (nows.map (.step i)) = s := by
  induction nows with
  | nil => rfl
  | cons now nows ih =>
    have hsame : s.step up ms (.step i now) = s := by
      rw [Migrating.step, hpc]
      show (⟨s.db, Function.update s.runners i (.answered r)⟩ : Migrating S) = s
      rw [← hpc, Function.update_eq_self]
    rw [List.map_cons, Run.run_cons, hsame, ih]

/-- A runner that is alone goes through the migrations that are left. -/
theorem Inv.solo {nows : List Int} {todo : List Migration} {highest : Nat} (hasc : Ascending ms)
    (happlies : Applies up ms s₀) (h : s.Inv up ms s₀ done) (hms : ms = done ++ todo)
    (hpc : s.runners i = .applying highest todo) (hlen : todo.length < nows.length) :
    ∃ highest, (Run.run (Migrating.step up ms) s (nows.map (.step i))).runners i =
    .answered (.ok highest) := by
  induction todo generalizing s done highest nows with
  | nil =>
    cases nows with
    | nil => cases hlen
    | cons now nows =>
      have hstep := step_of_runnerStep up ms now (by rw [hpc, runnerStep])
      rw [List.map_cons, Run.run_cons, run_answered hstep.1]
      exact ⟨highest, hstep.1⟩
  | cons m todo ih =>
    cases nows with
    | nil => cases hlen
    | cons now nows =>
      have htracker := h.runners i
      rw [hpc] at htracker
      subst hms
      obtain ⟨db', happly⟩ := h.history.applyOne_next hasc happlies htracker.1 now
      have hstep := step_of_runnerStep up (done ++ m :: todo) now (by rw [hpc, runnerStep, happly])
      have hinv := h.step_to hasc (hstep.2 ▸ (h.history.applyOne happly).1)
      rw [List.map_cons, Run.run_cons]
      exact ih hinv (by simp) hstep.1 (Nat.lt_of_succ_lt_succ hlen)

/-- The same for one that is about to open the database. -/
theorem Inv.solo_opened {nows : List Int} (hasc : Ascending ms) (happlies : Applies up ms s₀)
    (h : s.Inv up ms s₀ done) (hpc : s.runners i = .opened) (hlen : ms.length + 2 < nows.length) :
    ∃ highest, (Run.run (Migrating.step up ms) s (nows.map (.step i))).runners i =
    .answered (.ok highest) := by
  obtain ⟨now₁, now₂, nows, rfl⟩ : ∃ now₁ now₂ rest, nows = now₁ :: now₂ :: rest := by
    cases nows with
    | nil => cases hlen
    | cons now₁ nows =>
      cases nows with
      | nil => simp at hlen
      | cons now₂ rest => exact ⟨now₁, now₂, rest, rfl⟩
  obtain ⟨rest, rfl⟩ := h.early
  have hcreate := step_of_runnerStep up (done ++ rest) now₁ (by rw [hpc, runnerStep])
  have hinv₁ := h.step_to hasc (hcreate.2 ▸ h.history.createTracker)
  have htracker := hinv₁.runners i
  rw [hcreate.1] at htracker
  have hread := step_of_runnerStep up (done ++ rest) now₂
    (by rw [hcreate.1, runnerStep, hinv₁.history.currentVersionIn hasc.left htracker])
  have hinv₂ := hinv₁.step_to hasc (hread.2 ▸ hinv₁.history)
  rw [hasc.filter_above] at hread
  rw [List.map_cons, Run.run_cons, List.map_cons, Run.run_cons]
  refine hinv₂.solo hasc happlies rfl hread.1 ?_
  simp only [List.length_append, List.length_cons] at hlen
  omega

/-- Whatever runners do at the same time, and wherever they fail or die, the database is at a prefix
of the migrations, each applied once; one that answers `Ok` answers the last version and finds all
of them applied. -/
theorem migrations_serialize (up : Nat → Int → S → Option S) (s₀ : S) (es : List MigrationEvent) :
    Run.Always (Migrating.step up MIGRATIONS)
    (fun s => (∃ n, s.db.HistoryOf up s₀ (MIGRATIONS.take n)) ∧
      ∀ i v, s.runners i = .answered (.ok v) → v = currentPerTenantSchemaVersion ∧
        s.db.HistoryOf up s₀ MIGRATIONS)
      (.fresh s₀) es := by
  refine Run.always_iff_prefix.2 fun pre _ => ?_
  obtain ⟨done, hinv⟩ := (Inv.fresh up MIGRATIONS s₀).run MIGRATIONS_ascending pre
  rw [List.nil_append] at hinv
  refine ⟨⟨done.length, ?_⟩, fun i v hv => ?_⟩
  · rw [← List.prefix_iff_eq_take.1 hinv.early]
    exact hinv.history
  · have hi := hinv.runners i
    rw [hv] at hi
    obtain ⟨hdone, rfl⟩ := hi
    exact ⟨rfl, hdone ▸ hinv.history⟩

/-- After any of this, a runner that opens the database and is left alone migrates it to the end. -/
theorem migrations_resume (up : Nat → Int → S → Option S) (s₀ : S)
    (happlies : Applies up MIGRATIONS s₀)
    (es : List MigrationEvent) (i : Nat) (nows : List Int)
    (hlen : MIGRATIONS.length + 2 < nows.length)
    (hpc : (Run.run (Migrating.step up MIGRATIONS) (.fresh s₀) es).runners i = .opened) :
    let s := Run.run (Migrating.step up MIGRATIONS) (.fresh s₀) (es ++ nows.map (.step i))
    s.runners i = .answered (.ok currentPerTenantSchemaVersion) ∧
    s.db.HistoryOf up s₀ MIGRATIONS := by
  intro s
  obtain ⟨done, hinv⟩ := (Inv.fresh up MIGRATIONS s₀).run MIGRATIONS_ascending es
  obtain ⟨highest, hanswered⟩ := hinv.solo_opened MIGRATIONS_ascending happlies hpc hlen
  obtain ⟨more, hend⟩ := hinv.run MIGRATIONS_ascending (nows.map (.step i))
  rw [← Run.run_append] at hanswered hend
  have hi := hend.runners i
  rw [hanswered] at hi
  obtain ⟨hdone, rfl⟩ := hi
  exact ⟨hanswered, hdone ▸ hend.history⟩

end Runs

/-- Migrations that cannot be applied twice. -/
def once (version : Nat) (_now : Int) (s : List Nat) : Option (List Nat) :=
  if version ∈ s then none else some (version :: s)

theorem replay_once {rows : List MigrationRow} {s s' : List Nat} (h : replay once rows s = some s')
    {v : Nat} (hv : v ∈ s') : v ∈ s ∨ v ∈ rows.map (·.version) := by
  induction rows generalizing s with
  | nil => exact .inl (Option.some.inj h ▸ hv)
  | cons r rows ih =>
    obtain ⟨s₁, hr, hrows⟩ := Option.bind_eq_some_iff.1 ((List.foldlM_cons ..).symm.trans h)
    obtain ⟨-, hr⟩ := Option.ite_none_left_eq_some.1 hr
    obtain rfl := Option.some.inj hr
    rcases ih hrows with hmem | hmem
    · rcases List.mem_cons.1 hmem with rfl | hmem
      · exact .inr List.mem_cons_self
      · exact .inl hmem
    · exact .inr (List.mem_cons_of_mem _ hmem)

theorem applies_once : Applies once MIGRATIONS [] := by
  intro pre m post hms rows s hrows hreplay now
  have hfresh : m.version ∉ s := fun hmem => by
    rcases replay_once hreplay hmem with hmem | hmem
    · cases hmem
    · obtain ⟨r, hr, hversion⟩ := List.mem_map.1 hmem
      have hsorted := hms ▸ MIGRATIONS_ascending.sorted
      have hlt :=
        (List.pairwise_append.1 hsorted).2.2 r.migration (hrows ▸ List.mem_map_of_mem hr)
        m List.mem_cons_self
      exact absurd hversion (Nat.ne_of_lt hlt)
  rw [once, if_neg hfresh]
  rfl

/-- Two runners read the version before either applies anything; one loses, the other dies after
three migrations. -/
def raced : List MigrationEvent :=
  [.step 0 0, .step 1 0, .step 0 1, .step 1 1, .step 0 2, .step 1 2, .step 0 3, .step 0 4, .crash 0]

theorem migrations_resume_raced :
    (Run.run (Migrating.step once MIGRATIONS) (.fresh []) raced).runners 1 =
    .answered (.error (.migration 1)) ∧
      let s := Run.run (Migrating.step once MIGRATIONS) (.fresh [])
        (raced ++ (List.replicate 19 5).map (.step 2))
      s.runners 2 = .answered (.ok 19) ∧ s.db.HistoryOf once [] MIGRATIONS :=
  ⟨rfl, migrations_resume once [] applies_once raced 2 (List.replicate 19 5) (by decide) rfl⟩

end Migrating

end Solo
