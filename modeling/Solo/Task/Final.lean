import Solo.Task.Store

/-!
# Task statuses are final, unless a task is finished twice

`complete` and `fail` look at the cancel flag and at a Cancelled status, but not at an earlier
completion or failure, as `cancel` does: a second finishing call moves a finished task to another
status or gives it another result (`completedThenFailed_not_final`). `taskStatuses_final`: this is
the only way, over every interleaving of the calls' steps.
-/

namespace Solo

variable {V : Type} [Inhabited V] {s s' : TaskStore V} {id : String} {e e' : TaskEntry V} {v : V}
  {now : Int}

namespace TaskStore

/-! ### What a step can do -/

/-- Neither a result, nor the answer of a `cancel`, nor a completion. -/
def Plain : TaskLog V → Prop
  | .payload _ _ | .cancelled _ | .completed _ _ => False
  | _ => True

/-- The log has at most one plain line more. -/
def PlainLog (log log' : List (TaskLog V)) : Prop := log' = log ∨ ∃ l, log' = l :: log ∧ Plain l

/-- What a step does to the entries and to the log; only a request in `may` finishes a task. -/
inductive Effect (may : TaskRequest V → Prop) (s s' : TaskStore V) : Prop
  | quiet (heap : s'.heap = s.heap) (log : PlainLog s.log s'.log)
  | payload (id : String) (e : TaskEntry V) (v : V) (held : s.heap id = some e) (answered :
    e.result id = .ok v)
      (heap : s'.heap = s.heap) (log : s'.log = .payload id v :: s.log)
  | cancelled (id : String) (e : TaskEntry V) (held : s.heap id = some e)
      (heap : s'.heap = s.heap) (log : s'.log = .cancelled (snapshotTask e) :: s.log)
  | started (id message : String) (now : Int) (fresh : s.heap id = none)
      (heap : s'.heap = Function.update s.heap id (some (.start id message now)))
      (log : PlainLog s.log s'.log)
  | flagged (id : String) (e : TaskEntry V) (held : s.heap id = some e)
      (heap : s'.heap = Function.update s.heap id (some { e with cancelRequested := true }))
      (log : s'.log = s.log)
  | cancel (id : String) (e : TaskEntry V) (now : Int) (held : s.heap id = some e)
      (heap : s'.heap = Function.update s.heap id (some (e.cancel now))) (log : s'.log = s.log)
  | fail (id : String) (e : TaskEntry V) (message : String) (now : Int) (asked :
    may (.fail id message))
      (held : s.heap id = some e)
      (heap : s'.heap = Function.update s.heap id (some (e.fail message now)))
      (log : s'.log = s.log)
  | complete (id : String) (e : TaskEntry V) (v : V) (now : Int) (asked :
    may (.complete id v)) (held : s.heap id = some e)
      (heap : s'.heap = Function.update s.heap id (some (e.complete v now)))
      (log : s'.log = if e.state.status ≠ .completed ∧
        (e.complete v now).state.status = .completed then
        .completed id v :: s.log else s.log)

variable {may : TaskRequest V → Prop}

theorem Effect.refl : Effect may s s := .quiet rfl (.inl rfl)

theorem Effect.plain {l : TaskLog V} (h : Plain l) : Effect may s (s.answer l) :=
  .quiet rfl (.inr ⟨l, rfl, h⟩)

theorem Effect.setPhase (h : Effect may s s') (i : ℕ) (p : TaskPhase) :
    Effect may s (s'.setPhase i p) := by
  cases h with
  | quiet heap log => exact .quiet heap log
  | payload id e v held answered heap log => exact .payload id e v held answered heap log
  | cancelled id e held heap log => exact .cancelled id e held heap log
  | started id message now fresh heap log => exact .started id message now fresh heap log
  | flagged id e held heap log => exact .flagged id e held heap log
  | cancel id e now held heap log => exact .cancel id e now held heap log
  | fail id e message now asked held heap log => exact .fail id e message now asked held heap log
  | complete id e v now asked held heap log => exact .complete id e v now asked held heap log

theorem Effect.mono {may' : TaskRequest V → Prop} (h : Effect may s s') (hm : ∀ r, may r → may' r) :
    Effect may' s s' := by
  cases h with
  | quiet heap log => exact .quiet heap log
  | payload id e v held answered heap log => exact .payload id e v held answered heap log
  | cancelled id e held heap log => exact .cancelled id e held heap log
  | started id message now fresh heap log => exact .started id message now fresh heap log
  | flagged id e held heap log => exact .flagged id e held heap log
  | cancel id e now held heap log => exact .cancel id e now held heap log
  | fail id e message now asked held heap log =>
    exact .fail id e message now (hm _ asked) held heap log
  | complete id e v now asked held heap log => exact .complete id e v now (hm _ asked) held heap log

omit [Inhabited V] in
theorem modify_eq (s : TaskStore V) (id : String) (f : TaskEntry V → TaskEntry V) :
    s.heap id = none ∧ (s.modify id f).heap = s.heap ∨
    ∃ e, s.heap id = some e ∧ (s.modify id f).heap = Function.update s.heap id (some (f e)) := by
  unfold modify
  cases h : s.heap id with
  | none =>
    refine .inl ⟨rfl, ?_⟩
    rw [Option.map_none, ← h]
    exact Function.update_eq_self id s.heap
  | some e => exact .inr ⟨e, rfl, rfl⟩

theorem insert_effect (id message : String) (now : Int) :
    Effect may s (s.insert id message now) := by
  unfold insert
  cases h : s.heap id with
  | some e => exact .refl
  | none =>
    exact .started id message now h rfl (.inr ⟨_, rfl, trivial⟩)

theorem complete_effect (id : String) (v : V) (now : Int) (hm : may (.complete id v)) :
    Effect may s (s.complete id v now) := by
  unfold complete
  cases h : s.heap id with
  | none => exact .refl
  | some e =>
    have hheap : (s.modify id fun e => e.complete v now).heap =
        Function.update s.heap id (some (e.complete v now)) := by
      simp only [modify, h, Option.map_some]
    dsimp only
    split
    · next hc => exact .complete id e v now hm h hheap (by rw [if_pos hc]; rfl)
    · next hc => exact .complete id e v now hm h hheap (by rw [if_neg hc]; rfl)

theorem result_effect (id : String) : Effect may s (s.result id) := by
  unfold result
  cases h : s.heap id with
  | none => exact .refl
  | some e =>
    dsimp only
    cases hr : e.result id with
    | ok v => exact .payload id e v h hr rfl rfl
    | error err => exact .plain trivial

theorem answerTask_effect (id : String) {f : Task → TaskLog V}
    (hf : ∀ t, Plain (f t) ∨ f t = .cancelled t) : Effect may s (s.answerTask id f) := by
  unfold answerTask
  cases h : s.heap id with
  | none => exact .refl
  | some e =>
    rcases hf (snapshotTask e) with hplain | hcancelled
    · exact .plain hplain
    · exact .cancelled id e h rfl (congrArg (· :: s.log) hcancelled)

theorem lookup_effect (i : ℕ) (now : Int) (r : TaskRequest V) :
    Effect may s (s.lookup i now r) := by
  cases r with
  | start id message => exact (insert_effect id message now).setPhase i .done
  | list => exact Effect.refl.setPhase i (.listing [])
  | get id | result id | cancel id =>
    simp only [lookup]
    cases s.getEntry id with
    | none => exact (Effect.plain (l := .error (notFound id)) trivial).setPhase i .done
    | some e => exact Effect.refl.setPhase i .entry
  | complete id v | fail id m =>
    simp only [lookup]
    cases s.getEntry id with
    | none => exact Effect.refl.setPhase i .done
    | some e => exact Effect.refl.setPhase i .entry

theorem withEntry_effect (i : ℕ) (now : Int) (r : TaskRequest V) :
    Effect (· = r) s (s.withEntry i now r) := by
  cases r with
  | start id message => exact .refl
  | list => exact .refl
  | get id => exact (answerTask_effect id (f := .task) fun _ => .inl trivial).setPhase i .done
  | result id => exact (result_effect id).setPhase i .done
  | cancel id =>
    refine Effect.setPhase ?_ i (.flagged id)
    rcases modify_eq s id fun e => { e with cancelRequested := true } with ⟨-, h⟩ | ⟨e, he, h⟩
    · exact .quiet h (.inl rfl)
    · exact .flagged id e he h rfl
  | complete id v =>
    have heffect : Effect (· = .complete id v) s (s.complete id v now) :=
      complete_effect id v now rfl
    exact heffect.setPhase i .done
  | fail id message =>
    refine Effect.setPhase ?_ i .done
    rcases modify_eq s id fun e => e.fail message now with ⟨-, h⟩ | ⟨e, he, h⟩
    · exact .quiet h (.inl rfl)
    · exact .fail id e message now rfl he h rfl

theorem advance_effect (i : ℕ) (now : Int) (c : TaskCall V) :
    Effect (fun r => c = ⟨r, .entry⟩) s (s.advance i now c) := by
  obtain ⟨request, phase⟩ := c
  unfold advance
  cases phase with
  | pruning expired => exact Effect.refl.setPhase i (.removing expired)
  | removing expired =>
    cases expired with
    | nil => exact Effect.refl.setPhase i .lookup
    | cons id rest => exact .quiet rfl (.inl rfl)
  | lookup => exact lookup_effect i now request
  | listing tasks =>
    exact (Effect.plain (l := .tasks (tasks.mergeSort taskLe) s.inner.length) trivial).setPhase i
      .done
  | entry => exact (withEntry_effect i now request).mono fun r hr => hr ▸ rfl
  | flagged id =>
    refine Effect.setPhase ?_ i (.updated id)
    rcases modify_eq s id fun e => e.cancel now with ⟨-, h⟩ | ⟨e, he, h⟩
    · exact .quiet h (.inl rfl)
    · exact .cancel id e now he h rfl
  | updated id => exact (answerTask_effect id fun _ => .inr rfl).setPhase i .done
  | done => exact .refl

theorem observe_effect (i : ℕ) (e : TaskEntry V) (now : Int) (c : TaskCall V) :
    Effect may s (s.observe i e now c) := by
  unfold observe
  cases c.phase with
  | pruning expired =>
    dsimp only
    split
    · exact Effect.refl.setPhase i _
    · exact .refl
  | listing tasks =>
    dsimp only
    split
    · exact .refl
    · exact Effect.refl.setPhase i _
  | _ => exact .refl

/-- The request of a call that is about to take the lock of the entry it holds. -/
def AtEntry (s : TaskStore V) : TaskEvent V → TaskRequest V → Prop
  | .advance i _, r => s.calls[i]? = some ⟨r, .entry⟩
  | _, _ => False

theorem step_effect (s : TaskStore V) (ev : TaskEvent V) : Effect (s.AtEntry ev) s (s.step ev) := by
  cases ev with
  | call request => exact .quiet rfl (.inl rfl)
  | observe i taskId now =>
    simp only [step]
    split
    · exact observe_effect i _ now _
    · exact .refl
  | advance i now =>
    simp only [step]
    cases h : s.calls[i]? with
    | none => exact .refl
    | some c => exact (advance_effect i now c).mono fun r hr => h.trans (congrArg some hr)

/-! ### What a step keeps -/

/-- A call of `complete` or `fail` that takes the lock finds the task unfinished, or repeats what it
has. -/
def FinishesOnce (s : TaskStore V) (ev : TaskEvent V) : Prop :=
  ∀ r, s.AtEntry ev r → match r with
    | .complete id v => ∀ e, s.heap id = some e → e.state.status ≠ .failed ∧
        (e.state.status = .completed → e.cancelRequested = false ∧ e.state.result = some v)
    | .fail id _ => ∀ e, s.heap id = some e → e.state.status ≠ .completed ∧
        (e.state.status = .failed → e.cancelRequested = false)
    | _ => True

end TaskStore

namespace TaskEntry

/-- `e'` is `e` later, with no completion between them. -/
structure Kept (e e' : TaskEntry V) : Prop where
  taskId : e'.taskId = e.taskId
  status : e.state.status.terminal = true → e'.state.status = e.state.status
  result : e.state.status = .completed → e'.state.result = e.state.result
  fresh : e'.state.status = .completed → e.state.status = .completed

omit [Inhabited V]

theorem kept_flag (e : TaskEntry V) : e.Kept { e with cancelRequested := true } :=
  ⟨rfl, fun _ => rfl, fun _ => rfl, id⟩

theorem kept_cancel (e : TaskEntry V) (now : Int) : e.Kept (e.cancel now) := by
  unfold cancel
  split
  · exact ⟨rfl, fun _ => rfl, fun _ => rfl, id⟩
  · next h =>
    refine ⟨rfl, fun ht => ?_, fun _ => rfl, fun hc => TaskStatus.noConfusion hc⟩
    cases hs : e.state.status with
    | working => rw [hs] at ht; cases ht
    | completed => exact absurd (.inl hs) h
    | failed => exact absurd (.inr hs) h
    | cancelled => rfl

theorem kept_finishCancelled (h : e.state.status ≠ .completed) (hf : e.state.status ≠ .failed)
    (now : Int) : e.Kept (e.finishCancelled now) := by
  refine ⟨rfl, fun ht => ?_, fun _ => rfl, fun hc => TaskStatus.noConfusion hc⟩
  cases hs : e.state.status with
  | working => rw [hs] at ht; cases ht
  | completed => exact absurd hs h
  | failed => exact absurd hs hf
  | cancelled => rfl

theorem kept_fail (hc : e.state.status ≠ .completed)
    (hf : e.state.status = .failed → e.cancelRequested = false)
    (message : String) (now : Int) : e.Kept (e.fail message now) := by
  unfold fail
  split
  · next h =>
    refine kept_finishCancelled hc (fun hs => ?_) now
    rcases h with h | h
    · rw [hs] at h; cases h
    · rw [hf hs] at h; cases h
  · next h =>
    refine ⟨rfl, fun ht => ?_, fun _ => rfl, fun hc => TaskStatus.noConfusion hc⟩
    cases hs : e.state.status with
    | working => rw [hs] at ht; cases ht
    | completed => exact absurd hs hc
    | failed => rfl
    | cancelled => exact absurd (.inl hs) h

/-- A call of `complete` that may take the lock keeps the entry, or completes a Working task. -/
theorem complete_cases (hf : e.state.status ≠ .failed)
    (hc : e.state.status = .completed → e.cancelRequested = false ∧ e.state.result = some v)
    (now : Int) :
    (e.Kept (e.complete v now) ∧
      ¬ (e.state.status ≠ .completed ∧ (e.complete v now).state.status = .completed)) ∨
      e.state.status = .working ∧ (e.complete v now).taskId = e.taskId ∧
      (e.complete v now).state.status = .completed ∧
        (e.complete v now).state.result = some v := by
  unfold complete
  split
  · next h =>
    refine .inl ⟨kept_finishCancelled (fun hs => ?_) hf now, fun h => TaskStatus.noConfusion h.2⟩
    rcases h with h | h
    · rw [hs] at h; cases h
    · rw [(hc hs).1] at h; cases h
  · next h =>
    cases hs : e.state.status with
    | working => exact .inr ⟨rfl, rfl, rfl, rfl⟩
    | completed =>
      exact .inl ⟨⟨rfl, fun _ => hs.symm, fun _ => (hc hs).2.symm, fun _ => hs⟩, fun hn => hn.1 rfl⟩
    | failed => exact absurd hs hf
    | cancelled => exact absurd (.inl hs) h

end TaskEntry

namespace TaskStore

/-- What a step does in which no task is finished twice. -/
inductive Change (s s' : TaskStore V) : Prop
  | quiet (heap : s'.heap = s.heap) (log : PlainLog s.log s'.log)
  | payload (id : String) (e : TaskEntry V) (v : V) (held : s.heap id = some e) (answered :
    e.result id = .ok v)
      (heap : s'.heap = s.heap) (log : s'.log = .payload id v :: s.log)
  | cancelled (id : String) (e : TaskEntry V) (held : s.heap id = some e)
      (heap : s'.heap = s.heap) (log : s'.log = .cancelled (snapshotTask e) :: s.log)
  | started (id message : String) (now : Int) (fresh : s.heap id = none)
      (heap : s'.heap = Function.update s.heap id (some (.start id message now)))
      (log : PlainLog s.log s'.log)
  | kept (id : String) (e e' : TaskEntry V) (held : s.heap id = some e) (entry : e.Kept e')
      (heap : s'.heap = Function.update s.heap id (some e')) (log : s'.log = s.log)
  | finished (id : String) (e e' : TaskEntry V) (v : V) (held : s.heap id = some e) (working :
    e.state.status = .working)
      (taskId : e'.taskId = e.taskId) (completed : e'.state.status = .completed)
      (result : e'.state.result = some v)
      (heap : s'.heap = Function.update s.heap id (some e'))
      (log : s'.log = .completed id v :: s.log)

theorem Effect.change {ev : TaskEvent V} (h : Effect (s.AtEntry ev) s s') (hg : s.FinishesOnce ev) :
    Change s s' := by
  cases h with
  | quiet heap log => exact .quiet heap log
  | payload id e v held answered heap log => exact .payload id e v held answered heap log
  | cancelled id e held heap log => exact .cancelled id e held heap log
  | started id message now fresh heap log => exact .started id message now fresh heap log
  | flagged id e held heap log => exact .kept id e _ held e.kept_flag heap log
  | cancel id e now held heap log => exact .kept id e _ held (e.kept_cancel now) heap log
  | fail id e message now asked held heap log =>
    obtain ⟨hc, hf⟩ := hg _ asked e held
    exact .kept id e _ held (TaskEntry.kept_fail hc hf message now) heap log
  | complete id e v now asked held heap log =>
    obtain ⟨hf, hc⟩ := hg _ asked e held
    rcases TaskEntry.complete_cases hf hc now with ⟨hkept, hn⟩ | ⟨hw, ht, hs, hr⟩
    · rw [if_neg hn] at log
      exact .kept id e _ held hkept heap log
    · rw [if_pos ⟨by simp [hw], hs⟩] at log
      exact .finished id e _ v held hw ht hs hr heap log

/-- A result was given to the call of `complete` that made the task Completed, and no answer before
it showed the task as Cancelled. -/
def LogSound (log : List (TaskLog V)) : Prop :=
  ∀ later id v earlier, log = later ++ .payload id v :: earlier →
    .completed id v ∈ earlier ∧ ∀ t, .cancelled t ∈ earlier → t.taskId = id → t.status ≠ .cancelled

structure Inv (s : TaskStore V) : Prop where
  taskId : ∀ id e, s.heap id = some e → e.taskId = id
  completed : ∀ id v, .completed id v ∈ s.log ↔
    ∃ e, s.heap id = some e ∧ e.state.status = .completed ∧ e.state.result = some v
  stored : ∀ id e, s.heap id = some e → e.state.status = .completed → e.state.result ≠ none
  cancelled : ∀ t, .cancelled t ∈ s.log → t.status = .cancelled →
    ∃ e, s.heap t.taskId = some e ∧ e.state.status = .cancelled
  log : LogSound s.log

section Log
omit [Inhabited V]

variable {log log' : List (TaskLog V)}

theorem LogSound.cons {l : TaskLog V} (h : LogSound log) (hl : ∀ id v, l = .payload id v →
    .completed id v ∈ log ∧ ∀ t, .cancelled t ∈ log → t.taskId = id → t.status ≠ .cancelled) :
    LogSound (l :: log) := by
  intro later id v earlier heq
  cases later with
  | nil =>
    obtain ⟨rfl, rfl⟩ := List.cons.inj heq
    exact hl id v rfl
  | cons x later => exact h later id v earlier (List.cons.inj heq).2

theorem Plain.ne_payload {l : TaskLog V} (h : Plain l) (id : String) (v : V) :
    l ≠ .payload id v := by
  rintro rfl
  exact h

theorem PlainLog.completed (h : PlainLog log log') (id : String) (v : V) :
    .completed id v ∈ log' ↔ .completed id v ∈ log := by
  rcases h with rfl | ⟨l, rfl, hl⟩
  · rfl
  · refine ⟨fun hm => (List.mem_cons.1 hm).resolve_left ?_, List.mem_cons_of_mem _⟩
    rintro rfl
    exact hl

theorem PlainLog.cancelled (h : PlainLog log log') {t : Task} (hm : .cancelled t ∈ log') :
    .cancelled t ∈ log := by
  rcases h with rfl | ⟨l, rfl, hl⟩
  · exact hm
  · refine (List.mem_cons.1 hm).resolve_left ?_
    rintro rfl
    exact hl

theorem PlainLog.sound (h : PlainLog log log') (hs : LogSound log) : LogSound log' := by
  rcases h with rfl | ⟨l, rfl, hl⟩
  · exact hs
  · exact hs.cons fun id v heq => absurd heq (hl.ne_payload id v)

end Log

/-! ### The invariant -/

omit [Inhabited V] in
theorem inv_new : Inv (new : TaskStore V) where
  taskId := by rintro _ _ ⟨⟩
  completed := fun id v => by simp [new]
  stored := by rintro _ _ ⟨⟩
  cancelled := fun t h => absurd h List.not_mem_nil
  log := fun later id v earlier h => by simp [new] at h

omit [Inhabited V] in
/-- The entries are as they were. -/
theorem Inv.quiet (h : s.Inv) (heap : s'.heap = s.heap) (log : PlainLog s.log s'.log) : s'.Inv where
  taskId := heap ▸ h.taskId
  completed := fun id v => by rw [log.completed, h.completed, heap]
  stored := heap ▸ h.stored
  cancelled := fun t ht hs => heap ▸ h.cancelled t (log.cancelled ht) hs
  log := log.sound h.log

omit [Inhabited V] in
theorem Inv.started (h : s.Inv) {message : String} (fresh : s.heap id = none)
    (heap : s'.heap = Function.update s.heap id (some (.start id message now)))
    (log : PlainLog s.log s'.log) :
    s'.Inv := by
  have hother {id' : String} {e : TaskEntry V} (he : s.heap id' = some e) :
      s'.heap id' = some e := by
    have hne : id' ≠ id := by
      rintro rfl
      rw [fresh] at he
      cases he
    rw [heap, Function.update_of_ne hne, he]
  have hback {id' : String} {e : TaskEntry V} (he : s'.heap id' = some e) :
      s.heap id' = some e ∨ e = .start id' message now := by
    rw [heap] at he
    by_cases hid : id' = id
    · subst hid
      rw [Function.update_self] at he
      exact .inr (Option.some.inj he).symm
    · rw [Function.update_of_ne hid] at he
      exact .inl he
  constructor
  case taskId =>
    intro id' e he
    rcases hback he with he | rfl
    · exact h.taskId id' e he
    · rfl
  case completed =>
    intro id' v
    rw [log.completed, h.completed]
    constructor
    · rintro ⟨e, he, hs, hr⟩
      exact ⟨e, hother he, hs, hr⟩
    · rintro ⟨e, he, hs, hr⟩
      rcases hback he with he | rfl
      · exact ⟨e, he, hs, hr⟩
      · cases hs
  case stored =>
    intro id' e he hs
    rcases hback he with he | rfl
    · exact h.stored id' e he hs
    · cases hs
  case cancelled =>
    intro t ht hs
    obtain ⟨e, he, hc⟩ := h.cancelled t (log.cancelled ht) hs
    exact ⟨e, hother he, hc⟩
  case log => exact log.sound h.log

omit [Inhabited V] in
theorem Inv.kept (h : s.Inv) (held : s.heap id = some e) (entry : e.Kept e')
    (heap : s'.heap = Function.update s.heap id (some e')) (log : s'.log = s.log) : s'.Inv := by
  have hother {id' : String} (hid : id' ≠ id) : s'.heap id' = s.heap id' := by
    rw [heap, Function.update_of_ne hid]
  have hsame : s'.heap id = some e' := by rw [heap, Function.update_self]
  constructor
  case taskId =>
    intro id' x hx
    by_cases hid : id' = id
    · subst hid
      obtain rfl := Option.some.inj (hx.symm.trans hsame)
      exact entry.taskId.trans (h.taskId _ e held)
    · exact h.taskId id' x (hother hid ▸ hx)
  case completed =>
    intro id' v
    rw [log, h.completed]
    by_cases hid : id' = id
    · subst hid
      rw [held, hsame]
      constructor
      · rintro ⟨x, hx, hs, hr⟩
        obtain rfl := Option.some.inj hx
        exact ⟨e', rfl, (entry.status (by rw [hs]; rfl)).trans hs, (entry.result hs).trans hr⟩
      · rintro ⟨x, hx, hs, hr⟩
        obtain rfl := Option.some.inj hx
        exact ⟨e, rfl, entry.fresh hs, (entry.result (entry.fresh hs)).symm.trans hr⟩
    · rw [hother hid]
  case stored =>
    intro id' x hx hs
    by_cases hid : id' = id
    · subst hid
      obtain rfl := Option.some.inj (hx.symm.trans hsame)
      rw [entry.result (entry.fresh hs)]
      exact h.stored _ e held (entry.fresh hs)
    · exact h.stored id' x (hother hid ▸ hx) hs
  case cancelled =>
    intro t ht hs
    rw [log] at ht
    obtain ⟨x, hx, hc⟩ := h.cancelled t ht hs
    by_cases hid : t.taskId = id
    · rw [hid, held] at hx
      obtain rfl := Option.some.inj hx
      exact ⟨e', hid ▸ hsame, (entry.status (by rw [hc]; rfl)).trans hc⟩
    · exact ⟨x, (hother hid).trans hx, hc⟩
  case log => exact log ▸ h.log

omit [Inhabited V] in
theorem Inv.finished (h : s.Inv) (held : s.heap id = some e) (working : e.state.status = .working)
    (taskId : e'.taskId = e.taskId) (completed : e'.state.status = .completed)
    (result : e'.state.result = some v)
    (heap : s'.heap = Function.update s.heap id (some e'))
    (log : s'.log = .completed id v :: s.log) : s'.Inv := by
  have hother {id' : String} (hid : id' ≠ id) : s'.heap id' = s.heap id' := by
    rw [heap, Function.update_of_ne hid]
  have hsame : s'.heap id = some e' := by rw [heap, Function.update_self]
  constructor
  case taskId =>
    intro id' x hx
    by_cases hid : id' = id
    · subst hid
      obtain rfl := Option.some.inj (hx.symm.trans hsame)
      exact taskId.trans (h.taskId _ e held)
    · exact h.taskId id' x (hother hid ▸ hx)
  case completed =>
    intro id' w
    rw [log, List.mem_cons, h.completed]
    by_cases hid : id' = id
    · subst hid
      rw [held, hsame]
      constructor
      · rintro (heq | ⟨x, hx, hs, -⟩)
        · exact ⟨e', rfl, completed,
            result.trans (congrArg some (TaskLog.completed.inj heq).2.symm)⟩
        · obtain rfl := Option.some.inj hx
          rw [working] at hs
          cases hs
      · rintro ⟨x, hx, -, hr⟩
        obtain rfl := Option.some.inj hx
        exact .inl (congrArg (TaskLog.completed _) (Option.some.inj (hr.symm.trans result)))
    · rw [hother hid]
      refine ⟨fun hm => hm.resolve_left fun heq => hid (TaskLog.completed.inj heq).1, .inr⟩
  case stored =>
    intro id' x hx hs
    by_cases hid : id' = id
    · subst hid
      obtain rfl := Option.some.inj (hx.symm.trans hsame)
      rw [result]
      exact Option.some_ne_none v
    · exact h.stored id' x (hother hid ▸ hx) hs
  case cancelled =>
    intro t ht hs
    rw [log] at ht
    obtain ⟨x, hx, hc⟩ := h.cancelled t ((List.mem_cons.1 ht).resolve_left (by rintro ⟨⟩)) hs
    have hid : t.taskId ≠ id := by
      intro hid
      rw [hid, held] at hx
      obtain rfl := Option.some.inj hx
      rw [working] at hc
      cases hc
    exact ⟨x, (hother hid).trans hx, hc⟩
  case log => exact log ▸ h.log.cons (by rintro _ _ ⟨⟩)

theorem result_eq_ok (h : e.result id = .ok v) :
    e.state.status = .completed ∧ (e.state.result ≠ none → e.state.result = some v) := by
  unfold TaskEntry.result at h
  cases hs : e.state.status with
  | completed =>
    rw [hs] at h
    refine ⟨rfl, fun hr => ?_⟩
    cases hres : e.state.result with
    | none => exact absurd hres hr
    | some w =>
      rw [hres] at h
      exact congrArg some (Except.ok.inj h)
  | working | failed | cancelled =>
    rw [hs] at h
    cases h

theorem Inv.payload (h : s.Inv) (held : s.heap id = some e) (answered : e.result id = .ok v)
    (heap : s'.heap = s.heap) (log : s'.log = .payload id v :: s.log) : s'.Inv := by
  obtain ⟨hs, hr⟩ := result_eq_ok answered
  have hmark : .completed id v ∈ s.log :=
    (h.completed id v).2 ⟨e, held, hs, hr (h.stored id e held hs)⟩
  constructor
  case taskId => exact heap ▸ h.taskId
  case completed =>
    intro id' w
    rw [log, List.mem_cons, h.completed, heap]
    exact ⟨fun hm => hm.resolve_left (by rintro ⟨⟩), .inr⟩
  case stored => exact heap ▸ h.stored
  case cancelled =>
    intro t ht hc
    rw [log] at ht
    exact heap ▸ h.cancelled t ((List.mem_cons.1 ht).resolve_left (by rintro ⟨⟩)) hc
  case log =>
    rw [log]
    refine h.log.cons fun id' w heq => ?_
    obtain ⟨rfl, rfl⟩ := TaskLog.payload.inj heq
    refine ⟨hmark, ?_⟩
    rintro t ht rfl hc
    obtain ⟨x, hx, hcancelled⟩ := h.cancelled t ht hc
    obtain rfl := Option.some.inj (held.symm.trans hx)
    rw [hs] at hcancelled
    cases hcancelled

omit [Inhabited V] in
theorem Inv.cancelAnswered (h : s.Inv) (held : s.heap id = some e) (heap : s'.heap = s.heap)
    (log : s'.log = .cancelled (snapshotTask e) :: s.log) : s'.Inv where
  taskId := heap ▸ h.taskId
  completed := fun id' w => by
    rw [log, List.mem_cons, h.completed, heap]
    exact ⟨fun hm => hm.resolve_left (by rintro ⟨⟩), .inr⟩
  stored := heap ▸ h.stored
  cancelled := fun t ht hc => by
    rw [log] at ht
    rw [heap]
    rcases List.mem_cons.1 ht with heq | ht
    · obtain rfl := TaskLog.cancelled.inj heq
      refine ⟨e, ?_, hc⟩
      rw [← held]
      exact congrArg s.heap (h.taskId id e held)
    · exact h.cancelled t ht hc
  log := log ▸ h.log.cons (by rintro _ _ ⟨⟩)

theorem Inv.step (h : s.Inv) (ev : TaskEvent V) (hg : s.FinishesOnce ev) : (s.step ev).Inv := by
  cases (step_effect s ev).change hg with
  | quiet heap log => exact h.quiet heap log
  | payload id e v held answered heap log => exact h.payload held answered heap log
  | cancelled id e held heap log => exact h.cancelAnswered held heap log
  | started id message now fresh heap log => exact h.started fresh heap log
  | kept id e e' held entry heap log => exact h.kept held entry heap log
  | finished id e e' v held working taskId completed result heap log =>
    exact h.finished held working taskId completed result heap log

/-- One step keeps a final status. -/
theorem Change.status (h : Change s s') (he : s.heap id = some e)
    (ht : e.state.status.terminal = true) :
    ∃ e', s'.heap id = some e' ∧ e'.state.status = e.state.status := by
  cases h with
  | quiet heap log => exact ⟨e, heap ▸ he, rfl⟩
  | payload id' x v held answered heap log => exact ⟨e, heap ▸ he, rfl⟩
  | cancelled id' x held heap log => exact ⟨e, heap ▸ he, rfl⟩
  | started id' message now fresh heap log =>
    have hne : id ≠ id' := by
      rintro rfl
      rw [fresh] at he
      cases he
    exact ⟨e, by rw [heap, Function.update_of_ne hne, he], rfl⟩
  | kept id' x x' held entry heap log =>
    by_cases hid : id = id'
    · subst hid
      obtain rfl := Option.some.inj (he.symm.trans held)
      exact ⟨x', by rw [heap, Function.update_self], entry.status ht⟩
    · exact ⟨e, by rw [heap, Function.update_of_ne hid, he], rfl⟩
  | finished id' x x' v held working taskId completed result heap log =>
    by_cases hid : id = id'
    · subst hid
      obtain rfl := Option.some.inj (he.symm.trans held)
      rw [working] at ht
      cases ht
    · exact ⟨e, by rw [heap, Function.update_of_ne hid, he], rfl⟩

theorem run_status (es : List (TaskEvent V)) (hg : Run.Guarded step FinishesOnce s es)
    (he : s.heap id = some e) (ht : e.state.status.terminal = true) :
    ∃ e', (Run.run step s es).heap id = some e' ∧ e'.state.status = e.state.status := by
  induction es generalizing s e with
  | nil => exact ⟨e, he, rfl⟩
  | cons ev es ih =>
    obtain ⟨e₁, he₁, hs₁⟩ := ((step_effect s ev).change hg.1).status he ht
    obtain ⟨e₂, he₂, hs₂⟩ := ih hg.2 he₁ (hs₁ ▸ ht)
    exact ⟨e₂, he₂, hs₂.trans hs₁⟩

end TaskStore

/-- What the statuses and the answers of a run say. -/
structure TaskStatusesFinal (es : List (TaskEvent V)) : Prop where
  /-- A final status stays. -/
  status : ∀ pre post, pre ++ post <+: es → ∀ id e, (Run.run TaskStore.step .new pre).heap id =
    some e → e.state.status.terminal = true →
    ∃ e', (Run.run TaskStore.step .new (pre ++ post)).heap id = some e' ∧
    e'.state.status = e.state.status
  /-- No result follows a `cancel` that showed the task as Cancelled, and each result is the value
  given to the only call of `complete` that made the task Completed. -/
  results : ∀ later id v earlier, (Run.run TaskStore.step .new es).log = later ++
    .payload id v :: earlier →
    (∀ t, .cancelled t ∈ earlier → t.taskId = id → t.status ≠ .cancelled) ∧
    .completed id v ∈ earlier ∧
      ∀ w, .completed id w ∈ (Run.run TaskStore.step .new es).log → w = v

/-- Unless a task is finished twice. -/
theorem taskStatuses_final (es : List (TaskEvent V))
    (hg : Run.Guarded TaskStore.step TaskStore.FinishesOnce .new es) : TaskStatusesFinal es where
  status := by
    rintro pre post ⟨rest, rfl⟩ id e he ht
    rw [Run.run_append]
    exact TaskStore.run_status post (Run.guarded_append.1 (Run.guarded_append.1 hg).1).2 he ht
  results := by
    intro later id v earlier hlog
    have hinv := hg.invariant TaskStore.Inv (fun s ev h hc => h.step ev hc) TaskStore.inv_new
    obtain ⟨hmark, hcancel⟩ := hinv.log later id v earlier hlog
    refine ⟨hcancel, hmark, fun w hw => ?_⟩
    have hmem : .completed id v ∈ (Run.run TaskStore.step .new es).log := by
      rw [hlog]
      exact List.mem_append_right _ (List.mem_cons_of_mem _ hmark)
    obtain ⟨e, he, -, hr⟩ := (hinv.completed id v).1 hmem
    obtain ⟨e', he', -, hr'⟩ := (hinv.completed id w).1 hw
    obtain rfl := Option.some.inj (he.symm.trans he')
    exact Option.some.inj (hr'.symm.trans hr)

namespace FinishedTwice

/-- A call of `start` runs through. -/
def started : List (TaskEvent Bool) :=
  [.call (.start "t" "queued"), .advance 0 0, .advance 0 0, .advance 0 0]

def completed : List (TaskEvent Bool) :=
  started ++ [.call (.complete "t" true), .advance 1 1, .advance 1 1]

def completedThenFailed : List (TaskEvent Bool) :=
  completed ++ [.call (.fail "t" "serialize task result"), .advance 2 2, .advance 2 2]

/-- The task is completed and its result read. -/
def read : List (TaskEvent Bool) :=
  completed ++ [.call (.result "t"), .advance 2 2, .advance 2 2, .advance 2 2, .advance 2 2]

theorem read_finishesOnce : Run.Guarded TaskStore.step TaskStore.FinishesOnce .new read := by
  refine ⟨?_, ?_, ?_, ?_, ?_, ?_, ?_, ?_, ?_, ?_, ?_, ?_, trivial⟩
  case refine_7 =>
    intro r hr
    obtain rfl := congrArg TaskCall.request (Option.some.inj hr)
    intro e he
    obtain rfl := Option.some.inj he
    exact ⟨by rintro ⟨⟩, by rintro ⟨⟩⟩
  case refine_12 =>
    intro r hr
    obtain rfl := congrArg TaskCall.request (Option.some.inj hr)
    trivial
  all_goals rintro r ⟨⟩

end FinishedTwice

open FinishedTwice in
theorem taskStatuses_final_read : TaskStatusesFinal read :=
  taskStatuses_final read read_finishesOnce

open FinishedTwice in
/-- A completed task becomes Failed. -/
theorem completedThenFailed_not_final : ¬ TaskStatusesFinal completedThenFailed := by
  intro h
  obtain ⟨e, he, hs⟩ :=
    h.status completed [.call (.fail "t" "serialize task result"), .advance 2 2, .advance 2 2]
    (List.prefix_refl _) "t" ⟨"t", 0, false, ⟨.completed, some "completed", 1, some true⟩⟩ rfl rfl
  have hfailed : (Run.run TaskStore.step .new completedThenFailed).heap "t" =
      some ⟨"t", 0, false, ⟨.failed, some "serialize task result", 2, some true⟩⟩ := by rfl
  obtain rfl := Option.some.inj (he.symm.trans hfailed)
  cases hs

end Solo
