import Mathlib.Data.List.Basic

/-!
# Programs whose operations can fail or be cut by a crash

A program is a tree of operations on a state. It is run against a list of events, one for each
operation it performs: the operation is carried out, or the system reports an error, or the process
dies in the middle of it. Past the end of the list everything is carried out. What an operation that
fails or is cut leaves behind is part of the operation.

`wp` is the weakest precondition of a program for a postcondition of its reply and a crash
condition, over all lists of events that a filter `F` lets through; `wp_run` says that it is sound.
-/

namespace Crash

/-- What befalls one operation. The number says how far an operation that is not carried out got. -/
inductive Event
  | ok
  | err (n : ℕ)
  | cut (n : ℕ)
  deriving DecidableEq, Repr

/-- The process dies at the `i`-th operation, `n` steps into it; `none` for no crash. -/
def Event.crashAt : Option (ℕ × ℕ) → List Event
  | none => []
  | some (i, n) => List.replicate i .ok ++ [.cut n]

/-- Crashes, but no operation that reports an error. -/
def Event.NoError : Event → Prop
  | .err _ => False
  | _ => True

theorem Event.noError_crashAt {c : Option (ℕ × ℕ)} {e : Event} (h : e ∈ crashAt c) : e.NoError := by
  match c with
  | none => simp [crashAt] at h
  | some (i, n) =>
    simp only [crashAt, List.mem_append, List.mem_replicate, List.mem_singleton] at h
    rcases h with ⟨-, rfl⟩ | rfl <;> trivial

theorem Event.crashAt_zero (n : ℕ) : crashAt (some (0, n)) = [.cut n] := rfl

theorem Event.crashAt_succ (i n : ℕ) : crashAt (some (i + 1, n)) = .ok :: crashAt (some (i, n)) :=
  rfl

/-- The event of the `i`-th operation. -/
def Event.nth (es : List Event) (i : ℕ) : Event := es.getD i .ok

theorem Event.nth_tail (es : List Event) (i : ℕ) : nth es.tail i = nth es (i + 1) := by
  unfold nth
  cases es <;> simp

inductive Prog (σ ε α : Type)
  | ret (r : Except ε α)
  | read (k : σ → Prog σ ε α)
  | step (act : σ → Option σ) (cut : ℕ → σ → σ) (e : ε) (k : Except ε Unit → Prog σ ε α)

namespace Prog

variable {σ ε α β γ : Type}

/-- `?`: an error ends the program. -/
def bind : Prog σ ε α → (α → Prog σ ε β) → Prog σ ε β
  | .ret (.ok a), f => f a
  | .ret (.error e), _ => .ret (.error e)
  | .read k, f => .read fun s => (k s).bind f
  | .step act cut e k, f => .step act cut e fun r => (k r).bind f

instance : Monad (Prog σ ε) where
  pure a := .ret (.ok a)
  bind := Prog.bind

def throw (e : ε) : Prog σ ε α := .ret (.error e)

/-- What the program says of the state, at no cost. -/
def get (f : σ → α) : Prog σ ε α := .read fun s => .ret (.ok (f s))

/-- One operation: `act` is its effect, `none` where it is refused; `cut` is what it leaves when it
fails or is cut. -/
def op (act : σ → Option σ) (cut : ℕ → σ → σ) (e : ε) : Prog σ ε Unit := .step act cut e .ret

/-- The reply of a program as a value, so that its error can be handled. -/
def attempt : Prog σ ε α → Prog σ ε (Except ε α)
  | .ret r => .ret (.ok r)
  | .read k => .read fun s => (k s).attempt
  | .step act cut e k => .step act cut e fun r => (k r).attempt

/-- `Option::ok_or` and `Result` values of pure code. -/
def ofExcept (r : Except ε α) : Prog σ ε α := .ret r

/-- The reply, `none` after a crash, and the state. -/
def run : Prog σ ε α → List Event → σ → Option (Except ε α) × σ
  | .ret r, _, s => (some r, s)
  | .read k, es, s => (k s).run es s
  | .step _ cut e k, .err n :: es, s => (k (.error e)).run es (cut n s)
  | .step _ cut _ _, .cut n :: _, s => (none, cut n s)
  | .step act _ e k, es, s =>
    match act s with
    | some s' => (k (.ok ())).run es.tail s'
    | none => (k (.error e)).run es.tail s

/-- Whatever the events that `F` lets through, a reply satisfies `Q` and a crash leaves `C`. -/
def wp (F : Event → Prop) : Prog σ ε α → (Except ε α → σ → Prop) → (σ → Prop) → σ → Prop
  | .ret r, Q, _, s => Q r s
  | .read k, Q, C, s => (k s).wp F Q C s
  | .step act cut e k, Q, C, s =>
    (match act s with
      | some s' => (k (.ok ())).wp F Q C s'
      | none => (k (.error e)).wp F Q C s) ∧
    (∀ n, F (.err n) → (k (.error e)).wp F Q C (cut n s)) ∧
    (∀ n, F (.cut n) → C (cut n s))

section Equations

variable {act : σ → Option σ} {cut : ℕ → σ → σ} {e : ε} {f : α → Prog σ ε β} {g : Unit → Prog σ ε β}
variable {k : Except ε Unit → Prog σ ε α} {es : List Event} {s s' : σ}

@[simp] theorem run_pure (a : α) : (pure a : Prog σ ε α).run es s = (some (.ok a), s) := rfl

@[simp] theorem run_throw : (throw e : Prog σ ε α).run es s = (some (.error e), s) := rfl

@[simp] theorem run_ofExcept (r : Except ε α) : (ofExcept r : Prog σ ε α).run es s = (some r, s) :=
  rfl

@[simp] theorem pure_bind (a : α) : (pure a >>= f) = f a := rfl

@[simp] theorem throw_bind : (throw e >>= f) = throw e := rfl

@[simp] theorem ofExcept_bind_ok (a : α) : (ofExcept (.ok a) >>= f) = f a := rfl

@[simp] theorem ofExcept_bind_error : (ofExcept (.error e) >>= f) = throw e := rfl

@[simp] theorem run_get (h : σ → α) : (get h : Prog σ ε α).run es s = (some (.ok (h s)), s) := rfl

@[simp] theorem run_get_bind (h : σ → α) : (get h >>= f).run es s = (f (h s)).run es s := rfl

theorem op_bind : (op act cut e >>= g) =
    .step act cut e fun r => match r with | .ok () => g () | .error e => throw e := by
  show Prog.step _ _ _ _ = _
  congr 1
  funext r
  cases r <;> rfl

@[simp] theorem run_step_cut (n : ℕ) : (step act cut e k).run (.cut n :: es) s = (none, cut n s) :=
  rfl

@[simp] theorem run_step_err (n : ℕ) :
    (step act cut e k).run (.err n :: es) s = (k (.error e)).run es (cut n s) := rfl

theorem run_step_ok : (step act cut e k).run (.ok :: es) s =
    match act s with
    | some s' => (k (.ok ())).run es s'
    | none => (k (.error e)).run es s := rfl

/-- Without a crash there is a reply. -/
theorem run_nil (c : Prog σ ε α) (s : σ) : ∃ r s', c.run [] s = (some r, s') := by
  induction c generalizing s with
  | ret r => exact ⟨r, s, rfl⟩
  | read k ih => exact ih s s
  | step act cut e k ih =>
    cases hact : act s with
    | some s' =>
      obtain ⟨r, s'', h⟩ := ih (.ok ()) s'
      exact ⟨r, s'', by simp only [run, hact, List.tail_nil, h]⟩
    | none =>
      obtain ⟨r, s'', h⟩ := ih (.error e) s
      exact ⟨r, s'', by simp only [run, hact, List.tail_nil, h]⟩

/-- Past the end of the events everything is carried out. -/
theorem run_replicate_ok (c : Prog σ ε α) (k : ℕ) (s : σ) :
    c.run (List.replicate k .ok) s = c.run [] s := by
  induction c generalizing s k with
  | ret r => rfl
  | read f ih => exact ih s k s
  | step act cut e f ih =>
    have hstep : (step act cut e f).run (List.replicate k .ok) s =
        match act s with
        | some s' => (f (.ok ())).run (List.replicate k .ok).tail s'
        | none => (f (.error e)).run (List.replicate k .ok).tail s := by
      cases k <;> rfl
    rw [hstep, List.tail_replicate]
    cases hact : act s with
    | some s' => simp only [run, hact, List.tail_nil, ih]
    | none => simp only [run, hact, List.tail_nil, ih]

theorem bind_assoc (c : Prog σ ε α) (f : α → Prog σ ε β) (g : β → Prog σ ε γ) :
    (c >>= f >>= g) = (c >>= fun a => f a >>= g) := by
  show (c.bind f).bind g = c.bind fun a => (f a).bind g
  induction c with
  | ret r => cases r <;> rfl
  | read k ih => simp only [bind, ih]
  | step act cut e k ih => simp only [bind, ih]

/-- An operation, by the event that befalls it. -/
theorem run_op_bind : (op act cut e >>= g).run es s =
    match Event.nth es 0 with
    | .ok => match act s with
      | some s' => (g ()).run es.tail s'
      | none => (some (.error e), s)
    | .err n => (some (.error e), cut n s)
    | .cut n => (none, cut n s) := by
  rw [op_bind]
  cases es with
  | nil => simp only [Event.nth, List.getD_nil, run]; rfl
  | cons ev es => cases ev <;> simp only [Event.nth, List.getD_cons_zero, run] <;> rfl

theorem run_attempt_op {h : Except ε Unit → Prog σ ε α} :
    ((op act cut e).attempt >>= h).run es s =
      match Event.nth es 0 with
      | .ok => match act s with
        | some s' => (h (.ok ())).run es.tail s'
        | none => (h (.error e)).run es.tail s
      | .err n => (h (.error e)).run es.tail (cut n s)
      | .cut n => (none, cut n s) := by
  show ((op act cut e).attempt.bind h).run es s = _
  cases es with
  | nil => simp only [Event.nth, List.getD_nil, op, run, attempt, bind]
  | cons ev es =>
    cases ev <;> (simp only [Event.nth, List.getD_cons_zero, op, run, attempt, bind]; try rfl)

/-- The same for an operation whose error, or that of what follows it, is handled. -/
theorem run_attempt_op_bind {h : Except ε β → Prog σ ε α} :
    ((op act cut e >>= g).attempt >>= h).run es s =
      match Event.nth es 0 with
      | .ok => match act s with
        | some s' => ((g ()).attempt >>= h).run es.tail s'
        | none => (h (.error e)).run es.tail s
      | .err n => (h (.error e)).run es.tail (cut n s)
      | .cut n => (none, cut n s) := by
  rw [op_bind]
  show ((Prog.step act cut e _).attempt.bind h).run es s = _
  cases es with
  | nil => simp only [Event.nth, List.getD_nil, run, attempt, bind]; rfl
  | cons ev es =>
    cases ev <;> simp only [Event.nth, List.getD_cons_zero, run, attempt, bind] <;> rfl

theorem run_attempt_get_bind {h : Except ε β → Prog σ ε α} {f : σ → γ} {g : γ → Prog σ ε β} :
    ((get f >>= g).attempt >>= h).run es s = ((g (f s)).attempt >>= h).run es s := rfl

/-- A program followed by pure code. -/
theorem run_bind_pure (c : Prog σ ε α) (f : α → β) (es : List Event) (s : σ) :
    (c >>= fun a => (pure (f a) : Prog σ ε β)).run es s =
      ((c.run es s).1.map (Except.map f), (c.run es s).2) := by
  show (c.bind fun a => .ret (.ok (f a))).run es s = _
  induction c generalizing es s with
  | ret r => cases r <;> rfl
  | read k ih => exact ih s es s
  | step act cut e k ih =>
    have hok (es : List Event) : (match act s with
        | some s' => ((k (.ok ())).bind fun a => .ret (.ok (f a))).run es s'
        | none => ((k (.error e)).bind fun a => .ret (.ok (f a))).run es s) =
        ((match act s with
          | some s' => (k (.ok ())).run es s'
          | none => (k (.error e)).run es s).1.map (Except.map f),
        (match act s with
          | some s' => (k (.ok ())).run es s'
          | none => (k (.error e)).run es s).2) := by
      cases act s with
      | some s' => exact ih _ es s'
      | none => exact ih _ es s
    match es with
    | [] => exact hok []
    | .ok :: es => exact hok es
    | .err n :: es => exact ih _ es (cut n s)
    | .cut n :: es => rfl

end Equations

/-- The reply is a value. -/
def Replies (R : α → σ → Prop) (r : Except ε α) (s : σ) : Prop := ∃ a, r = .ok a ∧ R a s

section Rules

variable {F : Event → Prop} {Q Q' : Except ε α → σ → Prop} {C C' : σ → Prop} {s : σ}

theorem wp_ret (r : Except ε α) : (.ret r : Prog σ ε α).wp F Q C s ↔ Q r s := Iff.rfl

theorem wp_read (k : σ → Prog σ ε α) : (.read k : Prog σ ε α).wp F Q C s ↔ (k s).wp F Q C s :=
  Iff.rfl

@[simp] theorem wp_pure (a : α) : (pure a : Prog σ ε α).wp F Q C s ↔ Q (.ok a) s := Iff.rfl

@[simp] theorem wp_throw (e : ε) : (throw e : Prog σ ε α).wp F Q C s ↔ Q (.error e) s := Iff.rfl

@[simp] theorem wp_ofExcept (r : Except ε α) : (ofExcept r : Prog σ ε α).wp F Q C s ↔ Q r s :=
  Iff.rfl

@[simp] theorem wp_get (f : σ → α) : (get f : Prog σ ε α).wp F Q C s ↔ Q (.ok (f s)) s := Iff.rfl

theorem wp_op {act : σ → Option σ} {cut : ℕ → σ → σ} {e : ε} {Q : Except ε Unit → σ → Prop} :
    (op act cut e).wp F Q C s ↔
      (match act s with
        | some s' => Q (.ok ()) s'
        | none => Q (.error e) s) ∧
      (∀ n, F (.err n) → Q (.error e) (cut n s)) ∧ (∀ n, F (.cut n) → C (cut n s)) := Iff.rfl

theorem wp_bind {c : Prog σ ε α} {f : α → Prog σ ε β} {Q : Except ε β → σ → Prop} :
    (c >>= f).wp F Q C s ↔
      c.wp F (fun r s => match r with
        | .ok a => (f a).wp F Q C s
        | .error e => Q (.error e) s) C s := by
  show (c.bind f).wp F Q C s ↔ _
  induction c generalizing s with
  | ret r => cases r <;> exact Iff.rfl
  | read k ih => exact ih s
  | step act cut e k ih =>
    simp only [bind, wp, ih]

theorem wp_attempt {c : Prog σ ε α} {Q : Except ε (Except ε α) → σ → Prop} :
    c.attempt.wp F Q C s ↔ c.wp F (fun r s => Q (.ok r) s) C s := by
  induction c generalizing s with
  | ret r => exact Iff.rfl
  | read k ih => exact ih s
  | step act cut e k ih => simp only [attempt, wp, ih]

theorem wp_mono {c : Prog σ ε α} (hQ : ∀ r s, Q r s → Q' r s) (hC : ∀ s, C s → C' s)
    (h : c.wp F Q C s) : c.wp F Q' C' s := by
  induction c generalizing s with
  | ret r => exact hQ r s h
  | read k ih => exact ih s h
  | step act cut e k ih =>
    obtain ⟨hok, herr, hcut⟩ := h
    refine ⟨?_, fun n hn => ih _ (herr n hn), fun n hn => hC _ (hcut n hn)⟩
    cases hact : act s with
    | some s' =>
      rw [hact] at hok
      exact ih _ hok
    | none =>
      rw [hact] at hok
      exact ih _ hok

theorem wp_replies_mono {c : Prog σ ε α} {R R' : α → σ → Prop} (hc : c.wp F (Replies R) C s)
    (hR : ∀ a s', R a s' → R' a s') : c.wp F (Replies R') C s := by
  refine wp_mono ?_ (fun _ h => h) hc
  rintro r s' ⟨a, rfl, h⟩
  exact ⟨a, rfl, hR a s' h⟩

/-- A program followed by another, where the first does not fail. -/
theorem wp_bind_replies {c : Prog σ ε α} {f : α → Prog σ ε β} {Q : Except ε β → σ → Prop}
    {R : α → σ → Prop}
    (hc : c.wp F (Replies R) C s) (hf : ∀ a s', R a s' → (f a).wp F Q C s') :
    (c >>= f).wp F Q C s := by
  refine wp_bind.2 (wp_mono ?_ (fun _ h => h) hc)
  rintro r s' ⟨a, rfl, h⟩
  exact hf a s' h

/-- The same for a first program that is one operation. -/
theorem wp_bind_of_replies {c : Prog σ ε α} {f : α → Prog σ ε β} {Q : Except ε β → σ → Prop}
    (h : c.wp F (Replies fun a => (f a).wp F Q C) C s) : (c >>= f).wp F Q C s :=
    wp_bind_replies h fun _ _ h => h

theorem wp_get_bind {g : σ → β} {f : β → Prog σ ε α} : (get g >>= f).wp F Q C s ↔
    (f (g s)).wp F Q C s := Iff.rfl

theorem wp_ofExcept_bind {r : Except ε β} {b : β} {f : β → Prog σ ε α} (hr : r = .ok b)
    (h : (f b).wp F Q C s) : (ofExcept r >>= f).wp F Q C s := by
  subst hr
  exact h

/-- Fewer events, fewer outcomes. -/
theorem wp_filter {F' : Event → Prop} {c : Prog σ ε α} (hF : ∀ e, F' e → F e) (h : c.wp F Q C s) :
    c.wp F' Q C s := by
  induction c generalizing s with
  | ret r => exact h
  | read k ih => exact ih s h
  | step act cut e k ih =>
    obtain ⟨hok, herr, hcut⟩ := h
    refine ⟨?_, fun n hn => ih _ (herr n (hF _ hn)), fun n hn => hcut n (hF _ hn)⟩
    cases hact : act s with
    | some s' =>
      rw [hact] at hok
      exact ih _ hok
    | none =>
      rw [hact] at hok
      exact ih _ hok

/-- A run against events that `F` lets through ends as the weakest precondition says. -/
theorem wp_run {c : Prog σ ε α} {es : List Event} (h : c.wp F Q C s) (hes : ∀ e ∈ es, F e) :
    match c.run es s with
    | (some r, s') => Q r s'
    | (none, s') => C s' := by
  induction c generalizing s es with
  | ret r => exact h
  | read k ih => exact ih s h hes
  | step act cut e k ih =>
    obtain ⟨hok, herr, hcut⟩ := h
    have htail : ∀ e' ∈ es.tail, F e' := fun e' he => hes e' (List.mem_of_mem_tail he)
    -- past the events, and at `ok`, the operation is carried out
    have hdone : match (match act s with
        | some s' => (k (.ok ())).run es.tail s'
        | none => (k (.error e)).run es.tail s) with
        | (some r, s') => Q r s'
        | (none, s') => C s' := by
      cases hact : act s with
      | some s' =>
        rw [hact] at hok
        exact ih _ hok htail
      | none =>
        rw [hact] at hok
        exact ih _ hok htail
    match es with
    | [] => exact hdone
    | .ok :: es => exact hdone
    | .err n :: es => exact ih _ (herr n (hes _ List.mem_cons_self)) htail
    | .cut n :: es => exact hcut n (hes _ List.mem_cons_self)

/-- The same for a condition on the outcome as a whole. -/
theorem run_of_wp {P : Option (Except ε α) × σ → Prop} {c : Prog σ ε α} {es : List Event}
    (h : c.wp F (fun r s' => P (some r, s')) (fun s' => P (none, s')) s) (hes : ∀ e ∈ es, F e) :
    P (c.run es s) := by
  have hrun := wp_run h hes
  cases hc : c.run es s with
  | mk r s' =>
    rw [hc] at hrun
    cases r with
    | none => exact hrun
    | some r => exact hrun

/-- A reply that was given satisfies the postcondition. -/
theorem wp_reply {c : Prog σ ε α} {es : List Event} {r : Except ε α} {s' : σ} (h : c.wp F Q C s)
    (hes : ∀ e ∈ es, F e) (hr : c.run es s = (some r, s')) : Q r s' := by
  have := wp_run h hes
  rwa [hr] at this

theorem wp_crash {c : Prog σ ε α} {es : List Event} {s' : σ} (h : c.wp F Q C s)
    (hes : ∀ e ∈ es, F e) (hr : c.run es s = (none, s')) : C s' := by
  have := wp_run h hes
  rwa [hr] at this

end Rules

end Prog

end Crash
