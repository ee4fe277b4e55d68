import Mathlib.Data.List.Nodup
import Mathlib.Data.Nat.Notation
import Solo.Lib.SharedStore

/-!
# Client setup as a transaction over files (`hooks.rs`, `apply_changes_with_writer`)

The setup checks every file that is to change, then checks each again and replaces it, and when a
step fails puts the files back that it has replaced, latest first. Other programs may edit the files
before any of these steps, and any call may fail; a check and the replacement after it are one step.
-/

namespace Solo.Setup

open SharedStore

structure Change (P B : Type) where
  path : P
  before : Option B
  after : B

/-- What happens before a step, and how the calls of the step turn out. -/
structure Moment (P B : Type) where
  edits : List (P × Option B)
  readFails : Bool
  actFails : Bool

structure World (P B : Type) where
  files : P → Option B
  clock : ℕ
  log : List (Event P (Option B))

inductive SetupError (P : Type)
  | retry (path : P)
  | changed (path : P)
  | call (path : P)

inductive Outcome (P : Type)
  | ok
  | refused (e : SetupError P)
  | restored (e : SetupError P)
  | incomplete (e : SetupError P) (paths : List P)

def SetupError.message {P : Type} (display callError : P → String) : SetupError P → String
  | .retry p => "config changed during setup; retry: " ++ display p
  | .changed p => "config changed during setup: " ++ display p
  | .call p => callError p

/-- The text of the error, if there is one. -/
def Outcome.message {P : Type} (display callError : P → String) : Outcome P → Option String
  | .ok => none
  | .refused e => some (e.message display callError)
  | .restored _ => some "setup failed; earlier changes were restored"
  | .incomplete e paths =>
    some ("setup failed: " ++ e.message display callError ++
      "; rollback incomplete; review current files before restoring backups: " ++
      ", ".intercalate (paths.map display))

variable {P B : Type} [DecidableEq P]

namespace World

def tick (env : ℕ → Moment P B) (w : World P B) : World P B :=
  let edits := (env w.clock).edits.map fun e => Event.foreign e.1 e.2
  { files := replay w.files edits, clock := w.clock + 1, log := w.log ++ edits }

/-- Replaces a file, or removes it. -/
def put (w : World P B) (p : P) (v : Option B) : World P B :=
  { w with files := Function.update w.files p v, log := w.log ++ [.own p v] }

end World

variable [DecidableEq B]

def changed (changes : List (Change P B)) : List (Change P B) :=
  changes.filter fun c => c.before ≠ some c.after

section Steps

variable (env : ℕ → Moment P B)

/-- The loop that detects edits and makes backups: its error, if it stops at one. -/
def prepare : List (Change P B) → World P B → Option (SetupError P) × World P B
  | [], w => (none, w)
  | c :: rest, w =>
    let m := env w.clock
    let w := w.tick env
    if m.readFails then (some (.call c.path), w)
    else if w.files c.path ≠ c.before then (some (.retry c.path), w)
    else if m.actFails then (some (.call c.path), w)
    else prepare rest w

/-- The loop that puts files back, and the paths of those that it does not. -/
def restore : List (Change P B) → World P B → List P × World P B
  | [], w => ([], w)
  | c :: rest, w =>
    let m := env w.clock
    let w := w.tick env
    if m.readFails ∨ w.files c.path ≠ some c.after ∨ m.actFails then
      let (paths, w) := restore rest w
      (c.path :: paths, w)
    else restore rest (w.put c.path c.before)

/-- How the step for a change fails, if it does. -/
def installError (m : Moment P B) (w : World P B) (c : Change P B) : Option (SetupError P) :=
  if m.readFails then some (.call c.path)
  else if w.files c.path ≠ c.before then some (.changed c.path)
  else if m.actFails then some (.call c.path)
  else none

/-- The loop that replaces the files; those that it has replaced are in `written`, latest first. -/
def install (written : List (Change P B)) : List (Change P B) → World P B → Outcome P × World P B
  | [], w => (.ok, w)
  | c :: rest, w =>
    let m := env w.clock
    let w := w.tick env
    match installError m w c with
    | none => install (c :: written) rest (w.put c.path (some c.after))
    | some e =>
      let (paths, w) := restore env written w
      (if paths.isEmpty then .restored e else .incomplete e paths, w)

/-- `apply_changes_with_writer` -/
def applyChanges (changes : List (Change P B)) (files : P → Option B) : Outcome P × World P B :=
  match prepare env (changed changes) ⟨files, 0, []⟩ with
  | (some e, w) => (.refused e, w)
  | (none, w) => install env [] (changed changes) w

end Steps

/-! ### What the steps keep -/

section Invariant

variable {env : ℕ → Moment P B} {changes : List (Change P B)} {init : P → Option B} {w : World P B}

/-- What the setup may replace: what it has planned to, and what it has put there. -/
def MayReplace (changes : List (Change P B)) (p : P) (v : Option B) : Prop :=
  ∃ c ∈ changes, c.path = p ∧ (v = c.before ∨ v = some c.after)

structure Valid (changes : List (Change P B)) (init : P → Option B) (w : World P B) : Prop where
  files : w.files = replay init w.log
  careful : Careful (MayReplace changes) w.log

omit [DecidableEq B] in
theorem Valid.tick (h : Valid changes init w) : Valid changes init (w.tick env) := by
  refine ⟨?_, ?_⟩
  · unfold World.tick
    dsimp only
    rw [h.files, ← replay_append]
  · refine h.careful.foreign fun e he => ?_
    obtain ⟨edit, -, rfl⟩ := List.mem_map.1 he
    exact ⟨_, _, rfl⟩

omit [DecidableEq B] in
theorem ownValues_tick (p : P) : ownValues p (w.tick env).log = ownValues p w.log := by
  unfold World.tick
  dsimp only
  rw [ownValues_append]
  have hnone : ownValues p ((env w.clock).edits.map fun e => Event.foreign e.1 e.2) =
      ([] : List (Option B)) := by
    refine List.filterMap_eq_nil_iff.2 fun e he => ?_
    obtain ⟨edit, -, rfl⟩ := List.mem_map.1 he
    rfl
  rw [hnone, List.append_nil]

omit [DecidableEq B] in
theorem Valid.put (h : Valid changes init w) {p : P} (v : Option B)
    (hfound : MayReplace changes p (w.files p)) : Valid changes init (w.put p v) := by
  refine ⟨?_, ?_⟩
  · unfold World.put
    dsimp only
    rw [replay_append, h.files]
    rfl
  · rw [h.files] at hfound
    exact h.careful.own hfound

omit [DecidableEq B] in
theorem ownValues_put (p q : P) (v : Option B) :
    ownValues q (w.put p v).log = ownValues q w.log ++ if p = q then [v] else [] := by
  unfold World.put
  dsimp only
  rw [ownValues_append]
  by_cases hpq : p = q
  · simp [ownValues, hpq]
  · simp [ownValues, hpq]

/-- The first loop writes nothing. -/
theorem prepare_spec (env : ℕ → Moment P B) (rest : List (Change P B)) (h : Valid changes init w) :
    Valid changes init (prepare env rest w).2 ∧
      ∀ p, ownValues p (prepare env rest w).2.log = ownValues p w.log := by
  induction rest generalizing w with
  | nil => exact ⟨h, fun p => rfl⟩
  | cons c rest ih =>
    have hstop : Valid changes init (w.tick env) ∧
        ∀ p, ownValues p (w.tick env).log = ownValues p w.log :=
      ⟨h.tick, fun p => ownValues_tick p⟩
    unfold prepare
    dsimp only
    split
    · exact hstop
    split
    · exact hstop
    split
    · exact hstop
    · obtain ⟨hvalid, hown⟩ := ih h.tick
      exact ⟨hvalid, fun p => (hown p).trans (ownValues_tick p)⟩

/-- What the rollback leaves of a file that was replaced: named, or put back. -/
def Rolled (c : Change P B) (paths : List P) (w : World P B) : Prop :=
  (c.path ∈ paths ∧ ownValues c.path w.log = [some c.after]) ∨
    (c.path ∉ paths ∧ ownValues c.path w.log = [some c.after, c.before])

theorem restore_spec (env : ℕ → Moment P B) {written : List (Change P B)} (h : Valid changes init w)
    (hsub : ∀ c ∈ written, c ∈ changes)
    (hpaths : (written.map (·.path)).Nodup)
    (hown : ∀ c ∈ written, ownValues c.path w.log = [some c.after]) :
    Valid changes init (restore env written w).2 ∧
      (restore env written w).1.Sublist (written.map (·.path)) ∧
      (∀ c ∈ written, Rolled c (restore env written w).1 (restore env written w).2) ∧
      ∀ p ∉ written.map (·.path), ownValues p (restore env written w).2.log =
      ownValues p w.log := by
  induction written generalizing w with
  | nil =>
    refine ⟨h, .slnil, fun c hc => ?_, fun p _ => rfl⟩
    cases hc
  | cons c rest ih =>
    rw [List.map_cons, List.nodup_cons] at hpaths
    have hne : ∀ d ∈ rest, d.path ≠ c.path :=
      fun d hd heq => hpaths.1 (heq ▸ List.mem_map_of_mem hd)
    have hafter : ownValues c.path (w.tick env).log = [some c.after] :=
      (ownValues_tick c.path).trans (hown c List.mem_cons_self)
    unfold restore
    dsimp only
    split
    · obtain ⟨hvalid, hnames, hrolled, hframe⟩ := ih (w := w.tick env) h.tick
        (fun d hd => hsub d (List.mem_cons_of_mem _ hd)) hpaths.2
        fun d hd => (ownValues_tick d.path).trans (hown d (List.mem_cons_of_mem _ hd))
      refine ⟨hvalid, hnames.cons_cons _, fun d hd => ?_, fun p hp => ?_⟩
      · rcases List.mem_cons.1 hd with rfl | hd
        · exact .inl ⟨List.mem_cons_self, (hframe d.path hpaths.1).trans hafter⟩
        · rcases hrolled d hd with ⟨hmem, hvals⟩ | ⟨hmem, hvals⟩
          · exact .inl ⟨List.mem_cons_of_mem _ hmem, hvals⟩
          · exact .inr ⟨List.not_mem_cons_of_ne_of_not_mem (hne d hd) hmem, hvals⟩
      · have hp : p ∉ rest.map (·.path) := fun hmem => hp (List.mem_cons_of_mem _ hmem)
        exact (hframe p hp).trans (ownValues_tick p)
    · next hgood =>
      have hfound : (w.tick env).files c.path = some c.after := by
        by_contra hnot
        exact hgood (.inr (.inl hnot))
      have hput {q : P} (hq : c.path ≠ q) : ownValues q ((w.tick env).put c.path c.before).log =
          ownValues q w.log := by
        rw [ownValues_put, if_neg hq, List.append_nil, ownValues_tick]
      obtain ⟨hvalid, hnames, hrolled, hframe⟩ := ih (w := (w.tick env).put c.path c.before)
        (h.tick.put _ ⟨c, hsub c List.mem_cons_self, rfl, .inr hfound⟩)
        (fun d hd => hsub d (List.mem_cons_of_mem _ hd)) hpaths.2
        fun d hd => (hput (hne d hd).symm).trans (hown d (List.mem_cons_of_mem _ hd))
      refine ⟨hvalid, hnames.cons _, fun d hd => ?_, fun p hp => ?_⟩
      · rcases List.mem_cons.1 hd with rfl | hd
        · refine .inr ⟨fun hmem => hpaths.1 (hnames.subset hmem), ?_⟩
          rw [hframe d.path hpaths.1, ownValues_put, if_pos rfl, hafter]
          rfl
        · exact hrolled d hd
      · rw [List.map_cons, List.mem_cons, not_or] at hp
        exact (hframe p hp.2).trans (hput (Ne.symm hp.1))

/-- How the files stand that the setup has left alone or put back, in terms of what it has
written. -/
def PutBack (c : Change P B) (w : World P B) : Prop :=
  ownValues c.path w.log = [] ∨ ownValues c.path w.log = [some c.after, c.before]

/-- What the writes of the setup amount to at its end. -/
structure Settled (changes : List (Change P B)) (outcome : Outcome P) (w : World P B) : Prop where
  ok : outcome = .ok → ∀ c ∈ changes, ownValues c.path w.log = [some c.after]
  back : (∀ e paths, outcome ≠ .incomplete e paths) → outcome ≠ .ok → ∀ c ∈ changes, PutBack c w
  incomplete : ∀ e paths, outcome = .incomplete e paths →
    paths.Nodup ∧ paths ≠ [] ∧ (∀ p ∈ paths, p ∈ changes.map (·.path)) ∧
      ∀ c ∈ changes, (c.path ∈ paths ∧ ownValues c.path w.log = [some c.after]) ∨
      (c.path ∉ paths ∧ PutBack c w)
  others : ∀ p ∉ changes.map (·.path), ownValues p w.log = []

omit [DecidableEq P] in
theorem installError_eq_none {m : Moment P B} {c : Change P B} (h : installError m w c = none) :
    w.files c.path = c.before := by
  unfold installError at h
  split at h
  · cases h
  split at h
  · cases h
  · next hnot => exact not_not.1 hnot

theorem install_spec (env : ℕ → Moment P B) (written rest : List (Change P B))
    (h : Valid changes init w)
    (hperm : (written ++ rest).Perm changes) (hpaths : (changes.map (·.path)).Nodup)
    (hwritten : ∀ c ∈ written, ownValues c.path w.log = [some c.after])
    (hrest : ∀ p ∉ written.map (·.path), ownValues p w.log = []) :
    Valid changes init (install env written rest w).2 ∧
      Settled changes (install env written rest w).1 (install env written rest w).2 := by
  induction rest generalizing written w with
  | nil =>
    rw [List.append_nil] at hperm
    refine ⟨h, fun _ c hc => hwritten c (hperm.mem_iff.2 hc), fun _ hne => absurd rfl hne,
      fun e paths heq => ?_, fun p hp => hrest p fun hmem => hp ((hperm.map _).mem_iff.1 hmem)⟩
    cases heq
  | cons c rest ih =>
    have hnodup : ((written ++ c :: rest).map (·.path)).Nodup := (hperm.map _).nodup_iff.2 hpaths
    rw [List.map_append, List.nodup_append] at hnodup
    have hfresh : c.path ∉ written.map (·.path) :=
      fun hmem => hnodup.2.2 _ hmem _ List.mem_cons_self rfl
    have hc : c ∈ changes := hperm.mem_iff.1 (List.mem_append_right _ List.mem_cons_self)
    unfold install
    dsimp only
    cases herror : installError (env w.clock) (w.tick env) c with
    | none =>
      dsimp only
      have hfound := installError_eq_none herror
      refine ih (c :: written) (h.tick.put _ ⟨c, hc, rfl, .inl hfound⟩)
        (List.perm_middle.symm.trans hperm) (fun d hd => ?_) fun p hp => ?_
      · rw [ownValues_put, ownValues_tick]
        rcases List.mem_cons.1 hd with rfl | hd
        · rw [if_pos rfl, hrest _ hfresh]
          rfl
        · have hne : c.path ≠ d.path := fun heq => hfresh (heq ▸ List.mem_map_of_mem hd)
          rw [if_neg hne, List.append_nil, hwritten d hd]
      · rw [List.map_cons, List.mem_cons, not_or] at hp
        rw [ownValues_put, ownValues_tick, if_neg (Ne.symm hp.1), List.append_nil, hrest p hp.2]
    | some e =>
      dsimp only
      obtain ⟨hvalid, hnames, hrolled, hframe⟩ := restore_spec env (w := w.tick env) h.tick
        (fun d hd => hperm.mem_iff.1 (List.mem_append_left _ hd)) hnodup.1
        fun d hd => (ownValues_tick d.path).trans (hwritten d hd)
      generalize restore env written (w.tick env) = result at hvalid hnames hrolled hframe
      obtain ⟨paths, w'⟩ := result
      have hnone : ∀ p ∉ written.map (·.path), ownValues p w'.log = [] := fun p hp =>
        (hframe p hp).trans ((ownValues_tick p).trans (hrest p hp))
      have hall : ∀ d ∈ changes, (d.path ∈ paths ∧ ownValues d.path w'.log = [some d.after]) ∨
          (d.path ∉ paths ∧ PutBack d w') := by
        intro d hd
        rcases List.mem_append.1 (hperm.mem_iff.2 hd) with hd | hd
        · rcases hrolled d hd with hin | ⟨hout, hvals⟩
          · exact .inl hin
          · exact .inr ⟨hout, .inr hvals⟩
        · have hd : d.path ∉ written.map (·.path) := fun hmem =>
            hnodup.2.2 _ hmem _ (List.mem_map_of_mem hd) rfl
          exact .inr ⟨fun hmem => hd (hnames.subset hmem), .inl (hnone _ hd)⟩
      have hothers : ∀ p ∉ changes.map (·.path), ownValues p w'.log = [] := fun p hp => by
        refine hnone p fun hmem => hp ((hperm.map _).mem_iff.1 ?_)
        rw [List.map_append]
        exact List.mem_append_left _ hmem
      refine ⟨hvalid, ?_, ?_, ?_, hothers⟩
      · intro hok
        split at hok <;> cases hok
      · intro hcomplete _ d hd
        dsimp only at hcomplete
        split at hcomplete
        · next hempty =>
          rcases hall d hd with ⟨hin, -⟩ | ⟨-, hback⟩
          · rw [List.isEmpty_iff.1 hempty] at hin
            cases hin
          · exact hback
        · exact absurd rfl (hcomplete e paths)
      · intro e' paths' heq
        dsimp only at heq
        split at heq
        · cases heq
        · next hne =>
          obtain ⟨-, rfl⟩ := Outcome.incomplete.inj heq
          refine ⟨hnodup.1.sublist hnames, fun hnil => hne (List.isEmpty_iff.2 hnil),
            fun p hp => ?_, hall⟩
          refine (hperm.map _).mem_iff.1 ?_
          rw [List.map_append]
          exact List.mem_append_left _ (hnames.subset hp)

end Invariant

/-! ### The transaction -/

section Transaction

variable {changes : List (Change P B)} {files : P → Option B} {outcome : Outcome P} {w : World P B}

/-- Nobody else has touched the file since the change was planned. -/
def Untouched (files : P → Option B) (w : World P B) (c : Change P B) : Prop :=
  files c.path = c.before ∧ Ours c.path w.log

/-- What the setup promises of a run from `files` that ends with `outcome`. -/
structure Transactional (changes : List (Change P B)) (files : P → Option B) (outcome : Outcome P)
    (w : World P B) : Prop where
  /-- An edit by others that is not what was planned, before or after, is never overwritten. -/
  careful : ∀ pre mid post p v u, w.log = pre ++ .foreign p v :: (mid ++ .own p u :: post) →
    (∀ e ∈ mid, e.key ≠ p) → ∃ c ∈ changed changes, c.path = p ∧ (v = c.before ∨ v = some c.after)
  done : outcome = .ok → ∀ c ∈ changed changes, Untouched files w c → w.files c.path = some c.after
  undone : (∀ e paths, outcome ≠ .incomplete e paths) → outcome ≠ .ok →
    ∀ c ∈ changed changes, Untouched files w c → w.files c.path = c.before
  /-- An incomplete rollback names the files that were written and not put back. -/
  named : ∀ e paths, outcome = .incomplete e paths → paths.Nodup ∧ paths ≠ [] ∧
    ∀ p, p ∈ paths ↔ ∃ c ∈ changed changes, c.path = p ∧ .own p (some c.after) ∈ w.log ∧
    .own p c.before ∉ w.log

theorem transactional_of_settled (hvalid : Valid (changed changes) files w)
    (hsettled : Settled (changed changes) outcome w) : Transactional changes files outcome w := by
  have hvalue {c : Change P B} (hours : Untouched files w c) :
      w.files c.path = (ownValues c.path w.log).getLast?.getD (files c.path) := by
    rw [hvalid.files, replay_of_ours hours.2]
  refine ⟨hvalid.careful, fun hok c hc hours => ?_, fun hcomplete hne c hc hours => ?_,
    fun e paths heq => ?_⟩
  · rw [hvalue hours, hsettled.ok hok c hc]
    rfl
  · rw [hvalue hours]
    rcases hsettled.back hcomplete hne c hc with hnone | hback
    · rw [hnone]
      exact hours.1
    · rw [hback]
      rfl
  · obtain ⟨hnodup, hne, hsub, hall⟩ := hsettled.incomplete e paths heq
    refine ⟨hnodup, hne, fun p => ⟨fun hp => ?_, ?_⟩⟩
    · obtain ⟨c, hc, rfl⟩ := List.mem_map.1 (hsub p hp)
      rcases hall c hc with ⟨-, hown⟩ | ⟨hout, -⟩
      · have hdiff : c.before ≠ some c.after := of_decide_eq_true (List.mem_filter.1 hc).2
        refine ⟨c, hc, rfl, ?_, ?_⟩
        · rw [← mem_ownValues, hown]
          exact List.mem_singleton_self _
        · rw [← mem_ownValues, hown, List.mem_singleton]
          exact hdiff
      · exact absurd hp hout
    · rintro ⟨c, hc, rfl, hwrote, hleft⟩
      rcases hall c hc with ⟨hin, -⟩ | ⟨-, hnone | hback⟩
      · exact hin
      · rw [← mem_ownValues, hnone] at hwrote
        cases hwrote
      · rw [← mem_ownValues, hback] at hleft
        exact absurd (List.mem_cons_of_mem _ (List.mem_singleton_self _)) hleft

/-- The setup is a transaction, whatever fails and whatever others edit meanwhile. -/
theorem applyChanges_transactional (env : ℕ → Moment P B) (changes : List (Change P B))
    (files : P → Option B) (hpaths : (changes.map (·.path)).Nodup) :
    Transactional changes files (applyChanges env changes files).1
    (applyChanges env changes files).2 := by
  have hstart : Valid (changed changes) files ⟨files, 0, []⟩ := by
    refine ⟨rfl, fun pre mid post p v u heq => ?_⟩
    exact absurd heq.symm (List.append_ne_nil_of_right_ne_nil _ (List.cons_ne_nil _ _))
  have hchanged : ((changed changes).map (·.path)).Nodup :=
    hpaths.sublist (List.filter_sublist.map _)
  obtain ⟨hvalid, hown⟩ := prepare_spec env (changed changes) hstart
  unfold applyChanges
  generalize prepare env (changed changes) ⟨files, 0, []⟩ = prepared at hvalid hown
  obtain ⟨error, w⟩ := prepared
  have hnone : ∀ p, ownValues p w.log = [] := hown
  cases error with
  | some e =>
    refine transactional_of_settled hvalid ⟨fun hok => ?_, fun _ _ c _ => .inl (hnone _),
      fun e' paths heq => ?_, fun p _ => hnone p⟩
    · cases hok
    · cases heq
  | none =>
    obtain ⟨hvalid', hsettled⟩ := install_spec env [] (changed changes) hvalid
      (List.Perm.refl _) hchanged (fun c hc => absurd hc List.not_mem_nil) fun p _ => hnone p
    exact transactional_of_settled hvalid' hsettled

/-- The second file cannot be replaced, and another program saves the first one just before. -/
def sampleEnv (n : ℕ) : Moment ℕ ℕ :=
  if n = 3 then ⟨[(0, some 7)], false, true⟩ else ⟨[], false, false⟩

def sampleChanges : List (Change ℕ ℕ) := [⟨0, some 0, 1⟩, ⟨1, none, 1⟩]

def sampleFiles (p : ℕ) : Option ℕ := if p = 0 then some 0 else none

theorem applyChanges_transactional_pair :
    Transactional sampleChanges sampleFiles (applyChanges sampleEnv sampleChanges sampleFiles).1
      (applyChanges sampleEnv sampleChanges sampleFiles).2 :=
  applyChanges_transactional sampleEnv sampleChanges sampleFiles (by decide)

example : (applyChanges sampleEnv sampleChanges sampleFiles).1 = .incomplete (.call 1) [0] := rfl

end Transaction

end Solo.Setup
