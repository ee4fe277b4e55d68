import Mathlib.Logic.Function.Basic
import Solo.Lib.Run
import Solo.Store.Writer

/-!
# The data-directory lock (`lockfile.rs`)

Processes race for one path. `create_new`, the write of the pid, the read of the body, the liveness
check, the removal of a stale file and the retry are separate steps, and so are a drop, an I/O error
and a crash. A file is the inode that `create_new` made; a pid that is written after the file was
unlinked goes to the unlinked inode.

`try_recover_stale` takes a file whose pid is not written yet for stale, and removes what is at the
path when it gets there, which need not be the file it read (`emptyBody_not_exclusive`).
`lock_exclusive`: the lock is exclusive in every run in which no removal hits the file of a live
process that holds it or is about to.
-/

namespace Solo

/-- The lockfile; without a `pid` its body is still empty. -/
structure LockFile where
  ino : ℕ
  pid : Option ℕ

/-- Where a process stands in `Lockfile::acquire`; `retry` is set after a recovery. -/
inductive LockPc
  | idle
  | creating (retry : Bool)
  | writing (ino : ℕ)
  | reading
  | checking (pid : Option ℕ)
  | removing
  /-- `acquire` returned the `Lockfile`. -/
  | holding (ino : ℕ)
  /-- `acquire` returned an error. -/
  | refused (e : Error)
  | crashed

/-- The inode of a process that has the lock, or is about to. -/
def LockPc.owned : LockPc → Option ℕ
  | .writing ino | .holding ino => some ino
  | _ => none

structure LockDir where
  file : Option LockFile
  nextIno : ℕ
  pc : ℕ → LockPc

inductive LockEvent
  /-- Process `p` calls `Lockfile::acquire`. -/
  | acquire (p : ℕ)
  | advance (p : ℕ)
  /-- The operation process `p` is about to do fails; one that writes may have written the pid. -/
  | ioError (p : ℕ) (written : Bool)
  | drop (p : ℕ)
  | crash (p : ℕ)

namespace LockDir

variable (path : String)

def new : LockDir := ⟨none, 0, fun _ => .idle⟩

/-- `is_pid_alive` -/
def alive (d : LockDir) (p : ℕ) : Bool :=
  match d.pc p with
  | .crashed => false
  | _ => true

def heldError (pid : Option ℕ) : Error :=
  let pidMsg := match pid with
    | some p => s!" (held by pid {p})"
    | none => ""
  .conflict (s!"lockfile {path} already exists{pidMsg} — another Solo process is running. " ++
    "If you're sure no other instance is alive, remove the file manually.")

def setPc (d : LockDir) (p : ℕ) (pc : LockPc) : LockDir :=
  { d with pc := Function.update d.pc p pc }

/-- `create_new` -/
def create (d : LockDir) (p : ℕ) (retry : Bool) : LockDir :=
  match d.file with
  | some _ => if retry then d.setPc p (.refused (heldError path none)) else d.setPc p .reading
  | none => { d with file := some ⟨d.nextIno, none⟩, nextIno := d.nextIno + 1 }.setPc p
    (.writing d.nextIno)

/-- Writes the pid to the inode that the process has open. -/
def writePid (d : LockDir) (p ino : ℕ) : LockDir :=
  { d with file := d.file.map fun f => if f.ino = ino then { f with pid := some p } else f }

def advance (d : LockDir) (p : ℕ) : LockDir :=
  match d.pc p with
  | .creating retry => d.create path p retry
  | .writing ino => (d.writePid p ino).setPc p (.holding ino)
  | .reading =>
    match d.file with
    | none => d.setPc p (.refused (heldError path none))
    | some f => d.setPc p (.checking f.pid)
  | .checking pid =>
    -- a body that does not parse counts as the pid of a dead process
    if pid.any d.alive then d.setPc p (.refused (heldError path pid)) else d.setPc p .removing
  | .removing =>
    match d.file with
    | none => d.setPc p (.refused (.storage s!"remove stale lockfile {path}"))
    | some _ => { d with file := none }.setPc p (.creating true)
  | .idle | .holding _ | .refused _ | .crashed => d

def ioError (d : LockDir) (p : ℕ) (written : Bool) : LockDir :=
  match d.pc p with
  | .creating _ => d.setPc p (.refused (.storage s!"open lockfile {path}"))
  | .writing ino => (if written then d.writePid p ino else d).setPc p
    (.refused (.storage "write pid to lockfile"))
  | .reading => d.setPc p (.refused (heldError path none))
  | .removing => d.setPc p (.refused (.storage s!"remove stale lockfile {path}"))
  | _ => d

/-- `Drop` removes whatever is at the path. -/
def drop (d : LockDir) (p : ℕ) : LockDir :=
  match d.pc p with
  | .holding _ => { d with file := none }.setPc p .idle
  | _ => d

def step (d : LockDir) : LockEvent → LockDir
  | .acquire p =>
    match d.pc p with
    | .idle | .refused _ => d.setPc p (.creating false)
    | _ => d
  | .advance p => d.advance path p
  | .ioError p written => d.ioError path p written
  | .drop p => d.drop p
  | .crash p => d.setPc p .crashed

/-- One process at most has the lock, and then the file at the path is the one it created. -/
def Exclusive (d : LockDir) : Prop :=
  (∀ p q ino ino', d.pc p = .holding ino → d.pc q = .holding ino' → p = q) ∧
  ∀ p ino, d.pc p = .holding ino → ∃ f, d.file = some f ∧ f.ino = ino

/-- A process that removes a file for stale does not remove the one of a live process that holds it
or has just created it. -/
def RemovesStale (d : LockDir) : LockEvent → Prop
  | .advance p => d.pc p = .removing → ∀ f, d.file = some f → ∀ q, (d.pc q).owned ≠ some f.ino
  | _ => True

/-! ### The invariant -/

structure Inv (d : LockDir) : Prop where
  own : ∀ p ino, (d.pc p).owned = some ino → ∃ f, d.file = some f ∧ f.ino = ino
  unique : ∀ p q ino, (d.pc p).owned = some ino → (d.pc q).owned = some ino → p = q

variable {path} {d d' : LockDir} {p : ℕ} {pc : LockPc}

theorem Inv.exclusive (h : d.Inv) : d.Exclusive := by
  have hheld {p ino : ℕ} (hp : d.pc p = .holding ino) : (d.pc p).owned = some ino := by rw [hp]; rfl
  refine ⟨fun p q ino ino' hp hq => ?_, fun p ino hp => h.own p ino (hheld hp)⟩
  obtain ⟨f, hf, rfl⟩ := h.own p ino (hheld hp)
  obtain ⟨f', hf', rfl⟩ := h.own q ino' (hheld hq)
  obtain rfl := Option.some.inj (hf.symm.trans hf')
  exact h.unique p q f.ino (hheld hp) (hheld hq)

theorem inv_free (h : ∀ p, (d.pc p).owned = none) : d.Inv :=
  ⟨fun p ino hp => absurd ((h p).symm.trans hp) (by simp),
    fun p q ino hp => absurd ((h p).symm.trans hp) (by simp)⟩

/-- A step of `p` that keeps the files of the other processes. -/
theorem Inv.of_pc (h : d.Inv) (hpc : d'.pc = Function.update d.pc p pc)
    (hothers : ∀ q ino, q ≠ p → (d.pc q).owned = some ino → ∃ f, d'.file = some f ∧ f.ino = ino)
    (hown : ∀ ino, pc.owned = some ino →
      (∃ f, d'.file = some f ∧ f.ino = ino) ∧ ∀ q, q ≠ p → (d.pc q).owned ≠ some ino) : d'.Inv := by
  have hsame : d'.pc p = pc := by rw [hpc, Function.update_self]
  have hother {q : ℕ} (hq : q ≠ p) : d'.pc q = d.pc q := by rw [hpc, Function.update_of_ne hq]
  constructor
  case own =>
    intro q ino hq
    by_cases hqp : q = p
    · subst hqp
      exact (hown ino (hsame ▸ hq)).1
    · exact hothers q ino hqp (hother hqp ▸ hq)
  case unique =>
    intro q q' ino hq hq'
    by_cases hqp : q = p <;> by_cases hqp' : q' = p
    · rw [hqp, hqp']
    · subst hqp
      exact absurd (hother hqp' ▸ hq') ((hown ino (hsame ▸ hq)).2 q' hqp')
    · subst hqp'
      exact absurd (hother hqp ▸ hq) ((hown ino (hsame ▸ hq')).2 q hqp)
    · exact h.unique q q' ino (hother hqp ▸ hq) (hother hqp' ▸ hq')

/-- `p` gives up what it owned, and the file stays. -/
theorem Inv.setPc (h : d.Inv) (p : ℕ) (hpc : pc.owned = none) : (d.setPc p pc).Inv :=
  h.of_pc rfl (fun q ino _ hq => h.own q ino hq) fun _ hino => absurd (hpc.symm.trans hino)
    (by simp)

theorem Inv.create (h : d.Inv) (p : ℕ) (retry : Bool) : (d.create path p retry).Inv := by
  unfold LockDir.create
  cases hf : d.file with
  | some f =>
    dsimp only
    split
    · exact h.setPc p rfl
    · exact h.setPc p rfl
  | none =>
    -- the path is free, so nobody owns anything
    have hnobody (q ino : ℕ) : (d.pc q).owned ≠ some ino := by
      intro hq
      obtain ⟨f, hf', -⟩ := h.own q ino hq
      rw [hf] at hf'
      cases hf'
    refine h.of_pc rfl (fun q ino _ hq => absurd hq (hnobody q ino)) fun ino hino => ?_
    obtain rfl := Option.some.inj hino
    exact ⟨⟨_, rfl, rfl⟩, fun q _ => hnobody q _⟩

theorem Inv.writePid (h : d.Inv) (p ino : ℕ) : (d.writePid p ino).Inv where
  own := fun q i hq => by
    obtain ⟨f, hf, rfl⟩ := h.own q i hq
    refine ⟨_, congrArg (Option.map _) hf, ?_⟩
    dsimp only
    split <;> rfl
  unique := h.unique

/-- `p` goes on with the file it owns. -/
theorem Inv.keep (h : d.Inv) {ino : ℕ} (hp : (d.pc p).owned = some ino)
    (hpc : pc.owned = some ino) : (d.setPc p pc).Inv := by
  refine h.of_pc rfl (fun q i _ hq => h.own q i hq) fun i hi => ?_
  obtain rfl := Option.some.inj (hpc.symm.trans hi)
  exact ⟨h.own p _ hp, fun q hne hq => hne (h.unique q p _ hq hp)⟩

/-- Nobody but `p` owned the file that goes. -/
theorem Inv.remove (h : d.Inv) (hpc : pc.owned = none)
    (hf : ∀ f, d.file = some f → ∀ q, q ≠ p → (d.pc q).owned ≠ some f.ino) :
    ({ d with file := none }.setPc p pc).Inv := by
  refine h.of_pc rfl (fun q ino hne hq => ?_) fun _ hino => absurd (hpc.symm.trans hino) (by simp)
  obtain ⟨f, hfile, rfl⟩ := h.own q ino hq
  exact absurd hq (hf f hfile q hne)

theorem Inv.advance (h : d.Inv) (p : ℕ) (hg : d.RemovesStale (.advance p)) :
    (d.advance path p).Inv := by
  unfold LockDir.advance
  cases hp : d.pc p with
  | creating retry => exact h.create p retry
  | writing ino =>
    have hown : ((d.writePid p ino).pc p).owned = some ino := by
      show (d.pc p).owned = some ino
      rw [hp]
      rfl
    exact (h.writePid p ino).keep hown rfl
  | reading =>
    cases d.file with
    | none => exact h.setPc p rfl
    | some f => exact h.setPc p rfl
  | checking pid =>
    dsimp only
    split
    · exact h.setPc p rfl
    · exact h.setPc p rfl
  | removing =>
    cases hf : d.file with
    | none => exact h.setPc p rfl
    | some f => exact h.remove rfl fun f hfile q _ => hg hp f hfile q
  | idle | holding _ | refused _ | crashed => exact h

theorem Inv.ioError (h : d.Inv) (p : ℕ) (written : Bool) : (d.ioError path p written).Inv := by
  unfold LockDir.ioError
  cases d.pc p with
  | creating _ | reading | removing => exact h.setPc p rfl
  | writing ino =>
    dsimp only
    split
    · exact (h.writePid p ino).setPc p rfl
    · exact h.setPc p rfl
  | idle | checking _ | holding _ | refused _ | crashed => exact h

theorem Inv.drop (h : d.Inv) (p : ℕ) : (d.drop p).Inv := by
  unfold LockDir.drop
  cases hp : d.pc p with
  | holding ino =>
    refine h.remove rfl fun f hfile q hne hq => hne ?_
    obtain ⟨f', hfile', rfl⟩ := h.own p ino (by rw [hp]; rfl)
    obtain rfl := Option.some.inj (hfile.symm.trans hfile')
    exact h.unique q p f.ino hq (by rw [hp]; rfl)
  | idle | creating _ | writing _ | reading | checking _ | removing | refused _ | crashed => exact h

theorem Inv.step (h : d.Inv) (e : LockEvent) (hg : d.RemovesStale e) : (d.step path e).Inv := by
  cases e with
  | acquire p =>
    simp only [LockDir.step]
    cases d.pc p with
    | idle | refused _ => exact h.setPc p rfl
    | creating _ | writing _ | reading | checking _ | removing | holding _ | crashed => exact h
  | advance p => exact h.advance p hg
  | ioError p written => exact h.ioError p written
  | drop p => exact h.drop p
  | crash p => exact h.setPc p rfl

end LockDir

open LockDir

/-- From any directory whose lock no process has. -/
theorem lock_exclusive (path : String) (d : LockDir) (hfree : ∀ p, (d.pc p).owned = none)
    (es : List LockEvent)
    (hg : Run.Guarded (step path) RemovesStale d es) : Run.Always (step path) Exclusive d es :=
  hg.always Inv (fun _ e h hc => h.step e hc) (fun _ h => h.exclusive) (inv_free hfree)

/-- Process 1 has created the file; process 2 reads it before the pid is written, and recovers. -/
def emptyBody : List LockEvent :=
  [.acquire 1, .advance 1, .acquire 2, .advance 2, .advance 2, .advance 2, .advance 2, .advance 2,
    .advance 2, .advance 1]

theorem emptyBody_not_exclusive : ¬ Run.Always (step "solo.lock") Exclusive new emptyBody := by
  intro h
  have hboth : (1 : ℕ) = 2 := h.last.1 1 2 0 1 rfl rfl
  omega

/-- The lockfile of process 0, which has crashed. -/
def leftBehind : LockDir := ⟨some ⟨0, some 0⟩, 1, Function.update (fun _ => .idle) 0 .crashed⟩

theorem leftBehind_free (p : ℕ) : (leftBehind.pc p).owned = none := by
  show (Function.update (fun _ => LockPc.idle) 0 .crashed p).owned = none
  rw [Function.update_apply]
  split <;> rfl

/-- Process 1 recovers it; process 2 is refused, and gets the lock after the drop. -/
def recovered : List LockEvent :=
  [.acquire 1, .advance 1, .advance 1, .advance 1, .advance 1, .advance 1, .advance 1,
    .acquire 2, .advance 2, .advance 2, .advance 2, .drop 1, .acquire 2, .advance 2, .advance 2]

theorem lock_exclusive_recovered :
    Run.Always (step "solo.lock") Exclusive leftBehind recovered := by
  refine lock_exclusive "solo.lock" leftBehind leftBehind_free recovered
    ⟨trivial, ?_, ?_, ?_, ?_, ?_, ?_, trivial, ?_, ?_, ?_, trivial, trivial, ?_, ?_, trivial⟩
  case refine_4 =>
    rintro - f - q
    have hpc :
        (Run.run (step "solo.lock")
          leftBehind [.acquire 1, .advance 1, .advance 1, .advance 1]).pc =
        Function.update
        (Function.update (Function.update (Function.update leftBehind.pc 1 (.creating false)) 1
          .reading) 1 (.checking (some 0))) 1 .removing := rfl
    have hnone :
        ((Run.run (step "solo.lock") leftBehind [.acquire 1, .advance 1, .advance 1, .advance 1]).pc
          q).owned =
        none := by
      rw [hpc]
      by_cases hq : q = 1
      · subst hq
        rfl
      · rw [Function.update_of_ne hq, Function.update_of_ne hq, Function.update_of_ne hq,
          Function.update_of_ne hq]
        exact leftBehind_free q
    exact fun h => absurd (hnone.symm.trans h) (by simp)
  all_goals rintro ⟨⟩

end Solo
