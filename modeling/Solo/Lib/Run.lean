import Mathlib.Data.List.Infix

/-!
# Runs of a deterministic machine

A machine is a total step function `σ → ε → σ`; what the environment chooses (fresh names, the
clock, where a crash falls) is part of the event. `run` folds the step over a list of events,
`Always P` says that every state on the way satisfies `P`, and `Guarded C` that every step starts
from a state and an event related by `C`. The invariant rule is proved once here: what a guarded
step preserves, a guarded run preserves.
-/

namespace Run

variable {σ ε : Type*} (step : σ → ε → σ)

/-- The state after the events, in order. -/
def run (s : σ) (es : List ε) : σ := es.foldl step s

/-- Every step of the run meets `C` at the state it starts from. -/
def Guarded (C : σ → ε → Prop) : σ → List ε → Prop
  | _, [] => True
  | s, e :: es => C s e ∧ Guarded C (step s e) es

/-- Every state of the run satisfies `P`, the first and the last included. -/
def Always (P : σ → Prop) : σ → List ε → Prop
  | s, [] => P s
  | s, e :: es => P s ∧ Always P (step s e) es

variable {step} {s : σ} {e : ε} {es es' : List ε} {C C' : σ → ε → Prop} {P : σ → Prop}

@[simp] theorem run_nil : run step s [] = s := rfl

@[simp] theorem run_cons : run step s (e :: es) = run step (step s e) es := rfl

theorem run_append : run step s (es ++ es') = run step (run step s es) es' :=
  List.foldl_append

@[simp] theorem guarded_nil : Guarded step C s [] := trivial

@[simp] theorem guarded_cons :
    Guarded step C s (e :: es) ↔ C s e ∧ Guarded step C (step s e) es := Iff.rfl

theorem guarded_append :
    Guarded step C s (es ++ es') ↔ Guarded step C s es ∧ Guarded step C (run step s es) es' := by
  induction es generalizing s with
  | nil => simp
  | cons e es ih => simp [ih, and_assoc]

theorem Guarded.mono (hC : ∀ s e, C s e → C' s e) (h : Guarded step C s es) :
    Guarded step C' s es := by
  induction es generalizing s with
  | nil => trivial
  | cons e es ih => exact ⟨hC s e h.1, ih h.2⟩

/-- What holds of every event of the run may be added to its guard. -/
theorem Guarded.and_forall {D : ε → Prop} (h : Guarded step C s es) (hD : ∀ e ∈ es, D e) :
    Guarded step (fun s e => C s e ∧ D e) s es := by
  induction es generalizing s with
  | nil => trivial
  | cons e es ih =>
    exact ⟨⟨h.1, hD e List.mem_cons_self⟩, ih h.2 fun e' he => hD e' (List.mem_cons_of_mem _ he)⟩

/-- What a guarded step preserves, a guarded run preserves. -/
theorem Guarded.invariant (Inv : σ → Prop) (hstep : ∀ s e, Inv s → C s e → Inv (step s e))
    (hg : Guarded step C s es) (h0 : Inv s) : Inv (run step s es) := by
  induction es generalizing s with
  | nil => exact h0
  | cons e es ih => exact ih hg.2 (hstep s e h0 hg.1)

theorem invariant (Inv : σ → Prop) (hstep : ∀ s e, Inv s → Inv (step s e)) (h0 : Inv s) :
    Inv (run step s es) := by
  induction es generalizing s with
  | nil => exact h0
  | cons e es ih => exact ih (hstep s e h0)

/-- Guards that hold relative to an invariant may be read with the invariant in hand. -/
theorem Guarded.strengthen (Inv : σ → Prop) (hstep : ∀ s e, Inv s → C s e → Inv (step s e))
    (hg : Guarded step C s es) (h0 : Inv s) : Guarded step (fun s e => Inv s ∧ C s e) s es := by
  induction es generalizing s with
  | nil => trivial
  | cons e es ih => exact ⟨⟨h0, hg.1⟩, ih hg.2 (hstep s e h0 hg.1)⟩

/-- Two guards that say the same under an invariant of every step. -/
theorem guarded_congr (Inv : σ → Prop) (hstep : ∀ s e, Inv s → Inv (step s e))
    (hC : ∀ s e, Inv s → (C s e ↔ C' s e)) (h0 : Inv s) : Guarded step C s es ↔
    Guarded step C' s es := by
  induction es generalizing s with
  | nil => exact Iff.rfl
  | cons e es ih => exact and_congr (hC s e h0) (ih (hstep s e h0))

theorem Always.first (h : Always step P s es) : P s := by
  cases es with
  | nil => exact h
  | cons e es => exact h.1

theorem Always.last (h : Always step P s es) : P (run step s es) := by
  induction es generalizing s with
  | nil => exact h
  | cons e es ih => exact ih h.2

/-- `Always` speaks of the states reached by the prefixes of the run. -/
theorem always_iff_prefix : Always step P s es ↔ ∀ pre, pre <+: es → P (run step s pre) := by
  induction es generalizing s with
  | nil =>
    refine ⟨fun h pre hp => ?_, fun h => h [] (List.prefix_refl _)⟩
    rw [List.prefix_nil.1 hp]
    exact h
  | cons e es ih =>
    constructor
    · rintro ⟨h0, hes⟩ pre hp
      cases pre with
      | nil => exact h0
      | cons e' pre =>
        obtain ⟨rfl, hpre⟩ := List.cons_prefix_cons.1 hp
        exact ih.1 hes pre hpre
    · intro h
      exact ⟨h [] List.nil_prefix,
        ih.2 fun pre hp => h (e :: pre) (List.cons_prefix_cons.2 ⟨rfl, hp⟩)⟩

/-- An invariant kept by every guarded step holds in every state of a guarded run. -/
theorem Guarded.always (Inv : σ → Prop) (hstep : ∀ s e, Inv s → C s e → Inv (step s e))
    (hP : ∀ s, Inv s → P s) (hg : Guarded step C s es) (h0 : Inv s) : Always step P s es := by
  induction es generalizing s with
  | nil => exact hP s h0
  | cons e es ih => exact ⟨hP s h0, ih hg.2 (hstep s e h0 hg.1)⟩

/-- The converse direction of an exact guard: if, under the invariant, a step from a good state to
a good state meets `C`, and every step keeps the invariant, then a run of good states is guarded. -/
theorem Always.guarded (Inv : σ → Prop) (hinv : ∀ s e, Inv s → Inv (step s e))
    (hC : ∀ s e, Inv s → P s → P (step s e) → C s e)
    (h : Always step P s es) (h0 : Inv s) : Guarded step C s es := by
  induction es generalizing s with
  | nil => trivial
  | cons e es ih => exact ⟨hC s e h0 h.1 h.2.first, ih h.2 (hinv s e h0)⟩

end Run
