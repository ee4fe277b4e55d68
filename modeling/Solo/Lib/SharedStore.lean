import Mathlib.Data.List.Basic
import Mathlib.Logic.Function.Basic

/-!
# A store that others write to as well

The log of a store of values by key, whose writes are our own or those of others. `replay` is the
store after the log. `Careful` says that no write of ours replaces a value of others, as it was
left, that is not one we may replace.
-/

namespace SharedStore

variable {P V : Type}

inductive Event (P V : Type)
  | foreign (key : P) (value : V)
  | own (key : P) (value : V)

def Event.key : Event P V → P
  | .foreign p _ => p
  | .own p _ => p

def Event.value : Event P V → V
  | .foreign _ v => v
  | .own _ v => v

variable [DecidableEq P]

def replay (init : P → V) (log : List (Event P V)) : P → V :=
  log.foldl (fun store e => Function.update store e.key e.value) init

/-- What we have written under a key, in turn. -/
def ownValues (p : P) (log : List (Event P V)) : List V :=
  log.filterMap fun e =>
    match e with
    | .own q v => if q = p then some v else none
    | .foreign _ _ => none

/-- Others have written nothing under the key. -/
def Ours (p : P) (log : List (Event P V)) : Prop := ∀ v, .foreign p v ∉ log

/-- A value that others left under a key and that we replaced was one that we may replace. -/
def Careful (mayReplace : P → V → Prop) (log : List (Event P V)) : Prop :=
  ∀ pre mid post p v w, log = pre ++ .foreign p v :: (mid ++ .own p w :: post) →
    (∀ e ∈ mid, e.key ≠ p) → mayReplace p v

variable {init : P → V} {log log' : List (Event P V)} {p : P}

theorem replay_append (init : P → V) (log log' : List (Event P V)) :
    replay init (log ++ log') = replay (replay init log) log' := List.foldl_append

theorem ownValues_append (p : P) (log log' : List (Event P V)) :
    ownValues p (log ++ log') = ownValues p log ++ ownValues p log' := List.filterMap_append

theorem mem_ownValues {v : V} : v ∈ ownValues p log ↔ .own p v ∈ log := by
  unfold ownValues
  rw [List.mem_filterMap]
  constructor
  · rintro ⟨e, he, hv⟩
    cases e with
    | foreign q u => cases hv
    | own q u =>
      dsimp only at hv
      split at hv
      · next hq =>
        obtain rfl := Option.some.inj hv
        rwa [hq] at he
      · cases hv
  · intro h
    exact ⟨_, h, if_pos rfl⟩

theorem replay_of_no_event (init : P → V) (h : ∀ e ∈ log, e.key ≠ p) :
    replay init log p = init p := by
  induction log generalizing init with
  | nil => rfl
  | cons e log ih =>
    have hne : p ≠ e.key := (h e List.mem_cons_self).symm
    refine (ih _ fun e' he' => h e' (List.mem_cons_of_mem _ he')).trans ?_
    exact Function.update_of_ne hne _ _

/-- A key that only we write to has our last value. -/
theorem replay_of_ours (h : Ours p log) :
    replay init log p = (ownValues p log).getLast?.getD (init p) := by
  induction log generalizing init with
  | nil => rfl
  | cons e log ih =>
    have htail : Ours p log := fun v hv => h v (List.mem_cons_of_mem _ hv)
    refine (ih htail).trans ?_
    cases e with
    | foreign q v =>
      have hne : p ≠ q := by
        rintro rfl
        exact h v List.mem_cons_self
      exact congrArg _ (Function.update_of_ne hne _ _)
    | own q v =>
      by_cases hq : q = p
      · subst hq
        have hown : ownValues q (.own q v :: log) = v :: ownValues q log := by simp [ownValues]
        rw [hown, List.getLast?_cons, Option.getD_some]
        exact congrArg _ (Function.update_self _ _ _)
      · have hown : ownValues p (.own q v :: log) = ownValues p log := by simp [ownValues, hq]
        rw [hown]
        exact congrArg _ (Function.update_of_ne (Ne.symm hq) _ _)

omit [DecidableEq P] in
/-- Others may write what they like. -/
theorem Careful.foreign {mayReplace : P → V → Prop} (h : Careful mayReplace log)
    {edits : List (Event P V)}
    (hedits : ∀ e ∈ edits, ∃ q v, e = .foreign q v) : Careful mayReplace (log ++ edits) := by
  intro pre mid post p v w heq hmid
  obtain ⟨tail, hlog⟩ : ∃ tail, log = pre ++ .foreign p v :: (mid ++ .own p w :: tail) := by
    have hsplit : log ++ edits = (pre ++ .foreign p v :: mid) ++ .own p w :: post := by
      rw [heq, List.append_assoc, List.cons_append]
    rcases List.append_eq_append_iff.1 hsplit with ⟨as, has, hedge⟩ | ⟨bs, hbs, hedge⟩
    · obtain ⟨q, u, hforeign⟩ := hedits (.own p w) (by rw [hedge]; simp)
      cases hforeign
    · cases bs with
      | nil =>
        obtain ⟨q, u, hforeign⟩ :=
          hedits (.own p w) (by rw [List.nil_append] at hedge; rw [← hedge]; simp)
        cases hforeign
      | cons b bs =>
        obtain ⟨rfl, -⟩ := List.cons.inj hedge
        exact ⟨bs, by rw [hbs, List.append_assoc, List.cons_append]⟩
  exact h pre mid tail p v w hlog hmid

/-- We may replace a value that we have found to be one of those. -/
theorem Careful.own {mayReplace : P → V → Prop} (h : Careful mayReplace log) {w : V}
    (hfound : mayReplace p (replay init log p)) : Careful mayReplace (log ++ [.own p w]) := by
  intro pre mid post q v u heq hmid
  have hsplit : log ++ [.own p w] = (pre ++ .foreign q v :: mid) ++ .own q u :: post := by
    rw [heq, List.append_assoc, List.cons_append]
  rcases List.eq_nil_or_concat post with rfl | ⟨post', last, rfl⟩
  · obtain ⟨hlog, hlast⟩ := List.append_inj' hsplit rfl
    obtain ⟨rfl, -⟩ : p = q ∧ w = u := by simpa using hlast
    rw [hlog, replay_append] at hfound
    have hvalue : replay (replay init pre) (.foreign p v :: mid) p = v := by
      refine (replay_of_no_event (Function.update (replay init pre) p v) hmid).trans ?_
      exact Function.update_self _ _ _
    rwa [hvalue] at hfound
  · have hlog : log = pre ++ .foreign q v :: (mid ++ .own q u :: post') := by
      have hinit : log ++ [.own p w] = (pre ++ .foreign q v :: (mid ++ .own q u :: post')) ++
          [last] := by
        rw [hsplit]
        simp
      exact (List.append_inj' hinit rfl).1
    exact h pre mid post' q v u hlog hmid

end SharedStore
