import Mathlib.Data.List.Sort
import Mathlib.Logic.Function.Basic
import Solo.Lib.Run

/-!
# The task store (`mcp_task.rs`)

A task lives behind an `Arc` that the map and every call in flight share, so `heap` keeps an entry
after `prune_expired` has taken its id out of `inner`. Task ids are fresh UUIDs. The cancel flag is
an atomic of its own; the rest of an entry is behind its lock, and one locked section is one step.
`log` has the answers of the calls, the newest first, and when a task became Completed.
-/

namespace Solo

inductive TaskStatus
  | working | completed | failed | cancelled
  deriving DecidableEq

/-- Completed, Failed and Cancelled. -/
def TaskStatus.terminal (s : TaskStatus) : Bool := s = .completed ∨ s = .failed ∨ s = .cancelled

structure TaskEntryState (V : Type) where
  status : TaskStatus
  statusMessage : Option String
  lastUpdatedAt : Int
  result : Option V

structure TaskEntry (V : Type) where
  taskId : String
  createdAt : Int
  cancelRequested : Bool
  state : TaskEntryState V

/-- A snapshot of an entry. -/
structure Task where
  taskId : String
  status : TaskStatus
  createdAt : Int
  lastUpdatedAt : Int
  statusMessage : Option String

inductive McpError
  | invalidParams (message : String)
  | invalidRequest (message : String)
  | internalError (message : String)

def taskResultTtlMs : Int := 30 * 60 * 1000

variable {V : Type}

def snapshotTask (e : TaskEntry V) : Task :=
  ⟨e.taskId, e.state.status, e.createdAt, e.state.lastUpdatedAt, e.state.statusMessage⟩

/-- The entry that `start` makes. -/
def TaskEntry.start (taskId message : String) (now : Int) : TaskEntry V :=
  ⟨taskId, now, false, ⟨.working, some message, now, none⟩⟩

namespace TaskEntry

/-- The locked section of `cancel`. -/
def cancel (e : TaskEntry V) (now : Int) : TaskEntry V :=
  if e.state.status = .completed ∨ e.state.status = .failed then e
  else
    { e with
      state := { e.state with
        status := .cancelled, statusMessage := some "cancel requested", lastUpdatedAt := now } }

/-- How `complete` and `fail` leave a task that was cancelled. -/
def finishCancelled (e : TaskEntry V) (now : Int) : TaskEntry V :=
  { e with
    state := { e.state with
      status := .cancelled, statusMessage := some "cancelled", lastUpdatedAt := now } }

/-- The locked section of `complete`. -/
def complete (e : TaskEntry V) (value : V) (now : Int) : TaskEntry V :=
  if e.state.status = .cancelled ∨ e.cancelRequested = true then e.finishCancelled now
  else { e with state := ⟨.completed, some "completed", now, some value⟩ }

/-- The locked section of `fail`. -/
def fail (e : TaskEntry V) (message : String) (now : Int) : TaskEntry V :=
  if e.state.status = .cancelled ∨ e.cancelRequested = true then e.finishCancelled now
  else
    { e with
      state := { e.state with
        status := .failed, statusMessage := some message, lastUpdatedAt := now } }

/-- The locked section of `result`. A missing value is the empty JSON object. -/
def result [Inhabited V] (e : TaskEntry V) (taskId : String) : Except McpError V :=
  match e.state.status with
  | .completed => .ok (e.state.result.getD default)
  | .failed => .error (.internalError (e.state.statusMessage.getD s!"task {taskId} failed"))
  | .cancelled =>
    .error (.invalidRequest (e.state.statusMessage.getD s!"task {taskId} was cancelled"))
  | .working => .error (.invalidRequest s!"task {taskId} is not complete")

/-- `prune_expired` takes the entry for expired. -/
def expired (e : TaskEntry V) (now : Int) : Bool :=
  e.state.status.terminal ∧ taskResultTtlMs < now - e.state.lastUpdatedAt

end TaskEntry

/-- A call; `complete` and `fail` are given the handle that `start` returned. -/
inductive TaskRequest (V : Type)
  | start (taskId : String) (message : String)
  | list
  | get (taskId : String)
  | result (taskId : String)
  | cancel (taskId : String)
  | complete (taskId : String) (value : V)
  | fail (taskId : String) (message : String)

/-- Where a call stands. -/
inductive TaskPhase
  | pruning (expired : List String)
  | removing (expired : List String)
  | lookup
  | listing (tasks : List Task)
  /-- The call holds the entry. -/
  | entry
  /-- `cancel` has stored the flag. -/
  | flagged (taskId : String)
  /-- `cancel` has released the lock. -/
  | updated (taskId : String)
  | done

structure TaskCall (V : Type) where
  request : TaskRequest V
  phase : TaskPhase

/-- What a call answered; `completed` marks the locked section that made a task Completed. -/
inductive TaskLog (V : Type)
  | created (task : Task)
  | tasks (tasks : List Task) (total : ℕ)
  | task (task : Task)
  | payload (taskId : String) (value : V)
  | cancelled (task : Task)
  | error (e : McpError)
  | completed (taskId : String) (value : V)

inductive TaskEvent (V : Type)
  | call (request : TaskRequest V)
  /-- The `i`-th call looks at one entry of the map, in `prune_expired` or in `list`. -/
  | observe (i : ℕ) (taskId : String) (now : Int)
  /-- The next step of the `i`-th call. -/
  | advance (i : ℕ) (now : Int)

structure TaskStore (V : Type) where
  heap : String → Option (TaskEntry V)
  inner : List String
  calls : List (TaskCall V)
  log : List (TaskLog V)

namespace TaskStore

def new : TaskStore V := ⟨fun _ => none, [], [], []⟩

/-- The entry in the map, as `get_entry` finds it. -/
def getEntry (s : TaskStore V) (taskId : String) : Option (TaskEntry V) :=
  if taskId ∈ s.inner then s.heap taskId else none

def notFound (taskId : String) : McpError := .invalidParams s!"task {taskId} not found"

/-- Changes the entry of a task in place. -/
def modify (s : TaskStore V) (taskId : String) (f : TaskEntry V → TaskEntry V) : TaskStore V :=
  { s with heap := Function.update s.heap taskId ((s.heap taskId).map f) }

def answer (s : TaskStore V) (l : TaskLog V) : TaskStore V := { s with log := l :: s.log }

def setPhase (s : TaskStore V) (i : ℕ) (phase : TaskPhase) : TaskStore V :=
  { s with calls := s.calls.modify i fun c => { c with phase } }

section
variable (s : TaskStore V)

@[simp] theorem answer_heap (l : TaskLog V) : (s.answer l).heap = s.heap := rfl

@[simp] theorem answer_log (l : TaskLog V) : (s.answer l).log = l :: s.log := rfl

@[simp] theorem setPhase_heap (i : ℕ) (p : TaskPhase) : (s.setPhase i p).heap = s.heap := rfl

@[simp] theorem setPhase_log (i : ℕ) (p : TaskPhase) : (s.setPhase i p).log = s.log := rfl

@[simp] theorem modify_log (id : String) (f : TaskEntry V → TaskEntry V) :
    (s.modify id f).log = s.log := rfl

end

/-- `snapshot_task` in the answers of `get` and `cancel`. -/
def answerTask (s : TaskStore V) (taskId : String) (f : Task → TaskLog V) : TaskStore V :=
  match s.heap taskId with
  | none => s
  | some e => s.answer (f (snapshotTask e))

/-- `start`, once its id is drawn. -/
def insert (s : TaskStore V) (taskId message : String) (now : Int) : TaskStore V :=
  match s.heap taskId with
  | some _ => s
  | none =>
    let e := .start taskId message now
    { s with
      heap := Function.update s.heap taskId (some e)
      inner := taskId :: s.inner
      log := .created (snapshotTask e) :: s.log }

/-- `complete`, once it holds the entry. -/
def complete (s : TaskStore V) (taskId : String) (value : V) (now : Int) : TaskStore V :=
  match s.heap taskId with
  | none => s
  | some e =>
    let s' := s.modify taskId fun e => e.complete value now
    if e.state.status ≠ .completed ∧ (e.complete value now).state.status = .completed then
      s'.answer (.completed taskId value)
    else s'

/-- `result`, once it holds the entry. -/
def result [Inhabited V] (s : TaskStore V) (taskId : String) : TaskStore V :=
  match s.heap taskId with
  | none => s
  | some e =>
    match e.result taskId with
    | .ok v => s.answer (.payload taskId v)
    | .error err => s.answer (.error err)

/-- `get_entry` of the `i`-th call. -/
def lookup (s : TaskStore V) (i : ℕ) (now : Int) : TaskRequest V → TaskStore V
  | .start id message => (s.insert id message now).setPhase i .done
  | .list => s.setPhase i (.listing [])
  | .get id | .result id | .cancel id =>
    match s.getEntry id with
    | none => (s.answer (.error (notFound id))).setPhase i .done
    | some _ => s.setPhase i .entry
  | .complete id _ | .fail id _ =>
    match s.getEntry id with
    | none => s.setPhase i .done
    | some _ => s.setPhase i .entry

/-- The `i`-th call goes on with the entry it holds. -/
def withEntry [Inhabited V] (s : TaskStore V) (i : ℕ) (now : Int) : TaskRequest V → TaskStore V
  | .start _ _ | .list => s
  | .get id => (s.answerTask id .task).setPhase i .done
  | .result id => (s.result id).setPhase i .done
  | .cancel id => (s.modify id fun e => { e with cancelRequested := true }).setPhase i (.flagged id)
  | .complete id value => (s.complete id value now).setPhase i .done
  | .fail id message => (s.modify id fun e => e.fail message now).setPhase i .done

/-- `list` sorts by `created_at`, the newest first, and then by id. -/
def taskLe (a b : Task) : Bool :=
  b.createdAt < a.createdAt ∨ (b.createdAt = a.createdAt ∧ a.taskId ≤ b.taskId)

def advance [Inhabited V] (s : TaskStore V) (i : ℕ) (now : Int) (c : TaskCall V) : TaskStore V :=
  match c.phase with
  | .pruning expired => s.setPhase i (.removing expired)
  | .removing (id :: rest) => { s with inner := s.inner.filter (· ≠ id) }.setPhase i
    (.removing rest)
  | .removing [] => s.setPhase i .lookup
  | .lookup => s.lookup i now c.request
  | .listing tasks => (s.answer (.tasks (tasks.mergeSort taskLe) s.inner.length)).setPhase i .done
  | .entry => s.withEntry i now c.request
  | .flagged id => (s.modify id fun e => e.cancel now).setPhase i (.updated id)
  | .updated id => (s.answerTask id .cancelled).setPhase i .done
  | .done => s

def observe (s : TaskStore V) (i : ℕ) (e : TaskEntry V) (now : Int) (c : TaskCall V) :
    TaskStore V :=
  match c.phase with
  | .pruning expired => if e.expired now then s.setPhase i (.pruning (e.taskId :: expired)) else s
  | .listing tasks => if tasks.any (·.taskId = e.taskId)
    then s else s.setPhase i (.listing (snapshotTask e :: tasks))
  | _ => s

/-- Every call but `complete` and `fail` begins with `prune_expired`. -/
def firstPhase : TaskRequest V → TaskPhase
  | .complete _ _ | .fail _ _ => .lookup
  | _ => .pruning []

def step [Inhabited V] (s : TaskStore V) : TaskEvent V → TaskStore V
  | .call request => { s with calls := s.calls ++ [⟨request, firstPhase request⟩] }
  | .observe i taskId now =>
    match s.calls[i]?, s.getEntry taskId with
    | some c, some e => s.observe i e now c
    | _, _ => s
  | .advance i now =>
    match s.calls[i]? with
    | some c => s.advance i now c
    | none => s

end TaskStore
end Solo
