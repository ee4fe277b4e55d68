import Mathlib.Data.List.Nodup
import Mathlib.Logic.Function.Basic
import Solo.Lib.Run

/-!
# One library behind many callers (`MemoryLibrary::handle`)

The library is opened by the first call that needs it. A caller looks into the slot, waits for
`open_lock`, looks again, has the library opened off the runtime and puts the handle into the slot;
a shutdown takes it out without the lock. Calls may come at any time, an open may fail, and a call
may be dropped at any await. That gives the lock back, but an open that the call has started runs on
by itself (`spawn_blocking`), beside the next one.

`Inv`: who holds the lock is the only one beyond it, the slot stays empty while a call has the
library opened, and a handle is put into the slot once for every time that it was taken out, and
once more. `Owned`: an open that runs is that of the call inside, or its call was dropped.
-/

namespace Solo

namespace MemoryLibrary

/-- A handle, by the number of its open. -/
abbrev HandleId := Nat

/-- Where a call of `handle` stands. A call that is dropped leaves behind the open that it waited
for. -/
inductive CallerPc
  | called
  | waiting
  | locked
  | opening (h : HandleId)
  | opened (h : HandleId)
  | answered (r : Except Unit HandleId)
  | dropped (left : Option HandleId)
  deriving DecidableEq

/-- The call is between taking the lock and giving it back. -/
def CallerPc.Inside : CallerPc → Prop
  | .locked | .opening _ | .opened _ => True
  | .called | .waiting | .answered _ | .dropped _ => False

/-- The call has found the slot empty under the lock. -/
def CallerPc.Opens : CallerPc → Prop
  | .opening _ | .opened _ => True
  | .called | .waiting | .locked | .answered _ | .dropped _ => False

/-- An open on the blocking pool. -/
inductive OpenTask
  | unstarted
  | running
  | ended (ok : Bool)
  deriving DecidableEq

inductive Event
  | step (i : Nat)
  | openEnds (h : HandleId) (ok : Bool)
  | drop (i : Nat)
  | shutdown

/-- `opens` counts the opens, `published` are the handles that were put into the slot and `taken`
counts those that were taken out of it. -/
structure State where
  slot : Option HandleId
  openLock : Option Nat
  opens : Nat
  tasks : HandleId → OpenTask
  published : List HandleId
  taken : Nat
  callers : Nat → CallerPc

namespace State

def fresh : State := ⟨none, none, 0, fun _ => .unstarted, [], 0, fun _ => .called⟩

def setCaller (s : State) (i : Nat) (pc : CallerPc) : State :=
  { s with callers := Function.update s.callers i pc }

def setTask (s : State) (h : HandleId) (task : OpenTask) : State :=
  { s with tasks := Function.update s.tasks h task }

/-- `spawn_blocking` -/
def startOpen (s : State) : State := { s with opens := s.opens + 1 }.setTask s.opens .running

def unlock (s : State) : State := { s with openLock := none }

/-- The next step of a call. -/
def advance (s : State) (i : Nat) : State :=
  match s.callers i with
  | .called =>
    match s.slot with
    | some h => s.setCaller i (.answered (.ok h))
    | none => s.setCaller i .waiting
  | .waiting =>
    match s.openLock with
    | some _ => s
    | none => { s with openLock := some i }.setCaller i .locked
  | .locked =>
    match s.slot with
    | some h => s.unlock.setCaller i (.answered (.ok h))
    | none => s.startOpen.setCaller i (.opening s.opens)
  | .opening h =>
    match s.tasks h with
    | .ended true => s.setCaller i (.opened h)
    | .ended false => s.unlock.setCaller i (.answered (.error ()))
    | .unstarted | .running => s
  | .opened h =>
    { s with slot := some h, published := s.published ++ [h] }.unlock.setCaller i
      (.answered (.ok h))
  | .answered _ | .dropped _ => s

/-- An open ends, whoever waits for it. -/
def endOpen (s : State) (h : HandleId) (ok : Bool) : State :=
  match s.tasks h with
  | .running => s.setTask h (.ended ok)
  | .unstarted | .ended _ => s

/-- A call is dropped at an await; its guard goes with it, its open does not. -/
def dropCall (s : State) (i : Nat) : State :=
  match s.callers i with
  | .called | .waiting => s.setCaller i (.dropped none)
  | .locked | .opened _ => s.unlock.setCaller i (.dropped none)
  | .opening h => s.unlock.setCaller i (.dropped (some h))
  | .answered _ | .dropped _ => s

/-- `shutdown_with_snapshot` -/
def takeHandle (s : State) : State :=
  match s.slot with
  | some _ => { s with slot := none, taken := s.taken + 1 }
  | none => s

def step (s : State) : Event → State
  | .step i => s.advance i
  | .openEnds h ok => s.endOpen h ok
  | .drop i => s.dropCall i
  | .shutdown => s.takeHandle

structure Inv (s : State) : Prop where
  lock : ∀ i, s.openLock = some i ↔ (s.callers i).Inside
  empty : ∀ i, (s.callers i).Opens → s.slot = none
  current : ∀ h, s.slot = some h → s.published.getLast? = some h
  answers : ∀ i h, s.callers i = .answered (.ok h) → h ∈ s.published
  count : s.published.length = s.taken + s.slot.isSome.toNat

/-- The call waits for the open, or did so when it was dropped. -/
def CallOf (s : State) (h : HandleId) (i : Nat) : Prop :=
  s.callers i = .opening h ∨ s.callers i = .dropped (some h)

structure Owned (s : State) : Prop where
  fresh : ∀ h, s.opens ≤ h → s.tasks h = .unstarted
  call : ∀ h, s.tasks h = .running → ∃ i, s.CallOf h i

variable {s : State} {i j : Nat} {pc : CallerPc}

theorem callers_setCaller (s : State) (i j : Nat) (pc : CallerPc) :
    (s.setCaller i pc).callers j = if j = i then pc else s.callers j := Function.update_apply ..

theorem Inv.fresh : State.fresh.Inv where
  lock i := ⟨fun h => (by cases h), fun h => (by cases h)⟩
  empty i h := by cases h
  current h hslot := by cases hslot
  answers i h hpc := by cases hpc
  count := rfl

theorem inside_of_opens (h : pc.Opens) : pc.Inside := by
  cases pc with
  | opening a => trivial
  | opened a => trivial
  | _ => cases h

/-- One call is inside at most. -/
theorem Inv.only (h : s.Inv) (hi : (s.callers i).Inside) (hj : (s.callers j).Inside) : i = j :=
  Option.some.inj (((h.lock i).2 hi).symm.trans ((h.lock j).2 hj))

/-- A call that is not inside goes on outside. -/
theorem Inv.outside (h : s.Inv) (hout : ¬ (s.callers i).Inside) (hpc : ¬ pc.Inside)
    (hanswer : ∀ h, pc = .answered (.ok h) → h ∈ s.published) : (s.setCaller i pc).Inv where
  lock j := by
    rw [callers_setCaller]
    split
    · next hj =>
        exact ⟨fun hlock => absurd ((h.lock i).1 (hj ▸ hlock)) hout, fun hin => absurd hin hpc⟩
    · exact h.lock j
  empty j hopens := by
    rw [callers_setCaller] at hopens
    split at hopens
    · exact absurd (inside_of_opens hopens) hpc
    · exact h.empty j hopens
  current := h.current
  answers j a hj := by
    rw [callers_setCaller] at hj
    split at hj
    · exact hanswer a hj
    · exact h.answers j a hj
  count := h.count

/-- The call that is inside leaves. -/
theorem Inv.leave (h : s.Inv) (hin : (s.callers i).Inside) (hpc : ¬ pc.Inside)
    (hanswer : ∀ h, pc = .answered (.ok h) → h ∈ s.published) : (s.unlock.setCaller i pc).Inv where
  lock j := by
    rw [callers_setCaller]
    refine ⟨fun hlock => (by cases hlock), fun hj => ?_⟩
    split at hj
    · exact absurd hj hpc
    · next hne => exact absurd (h.only hj hin) hne
  empty j hopens := by
    rw [callers_setCaller] at hopens
    split at hopens
    · exact absurd (inside_of_opens hopens) hpc
    · exact h.empty j hopens
  current := h.current
  answers j a hj := by
    rw [callers_setCaller] at hj
    split at hj
    · exact hanswer a hj
    · exact h.answers j a hj
  count := h.count

/-- The call that is inside goes on inside. -/
theorem Inv.inside (h : s.Inv) (hin : (s.callers i).Inside) (hpc : pc.Inside)
    (hempty : pc.Opens → s.slot = none) : (s.setCaller i pc).Inv where
  lock j := by
    rw [callers_setCaller]
    split
    · next hj =>
      subst hj
      exact ⟨fun _ => hpc, fun _ => (h.lock j).2 hin⟩
    · exact h.lock j
  empty j hopens := by
    rw [callers_setCaller] at hopens
    split at hopens
    · exact hempty hopens
    · exact h.empty j hopens
  current := h.current
  answers j a hj := by
    rw [callers_setCaller] at hj
    split at hj
    · subst hj
      cases hpc
    · exact h.answers j a hj
  count := h.count

/-- A call takes the lock. -/
theorem Inv.enter (h : s.Inv) (hlock : s.openLock = none) (i : Nat) :
    ({ s with openLock := some i }.setCaller i .locked).Inv where
  lock j := by
    have hfree : ¬ (s.callers j).Inside := fun hj => by
      have hheld := (h.lock j).2 hj
      rw [hlock] at hheld
      cases hheld
    rw [callers_setCaller]
    split
    · next hj => exact ⟨fun _ => trivial, fun _ => congrArg some hj.symm⟩
    · next hj =>
        exact ⟨fun heq => absurd (Option.some.inj heq).symm hj, fun hin => absurd hin hfree⟩
  empty j hopens := by
    rw [callers_setCaller] at hopens
    split at hopens
    · cases hopens
    · exact h.empty j hopens
  current := h.current
  answers j a hj := by
    rw [callers_setCaller] at hj
    split at hj
    · cases hj
    · exact h.answers j a hj
  count := h.count

/-- The call that opened the library leaves it in the slot. -/
theorem Inv.publish (h : s.Inv) (a : HandleId) (hin : (s.callers i).Opens) :
    ({ s with slot := some a, published := s.published ++ [a] }.unlock.setCaller i
      (.answered (.ok a))).Inv where
  lock j := by
    rw [callers_setCaller]
    refine ⟨fun hlock => (by cases hlock), fun hj => ?_⟩
    split at hj
    · cases hj
    · next hne => exact absurd (h.only hj (inside_of_opens hin)) hne
  empty j hopens := by
    rw [callers_setCaller] at hopens
    split at hopens
    · cases hopens
    · next hne => exact absurd (h.only (inside_of_opens hopens) (inside_of_opens hin)) hne
  current b hb := by
    obtain rfl := Option.some.inj hb
    exact List.getLast?_concat
  answers j b hj := by
    rw [callers_setCaller] at hj
    split at hj
    · cases hj
      exact List.mem_append_right _ List.mem_cons_self
    · exact List.mem_append_left _ (h.answers j b hj)
  count := by
    have hcount := h.count
    rw [h.empty i hin] at hcount
    show (s.published ++ [a]).length = s.taken + 1
    rw [List.length_append, hcount]
    rfl

theorem Inv.advance (h : s.Inv) (i : Nat) : (s.advance i).Inv := by
  unfold State.advance
  cases hpc : s.callers i with
  | called =>
    have hout : ¬ (s.callers i).Inside := by rw [hpc]; exact id
    cases hslot : s.slot with
    | none => exact h.outside hout id fun a ha => by cases ha
    | some a =>
      refine h.outside hout id fun b hb => ?_
      cases hb
      exact List.mem_of_getLast? (h.current a hslot)
  | waiting =>
    cases hlock : s.openLock with
    | some j => exact h
    | none => exact h.enter hlock i
  | locked =>
    have hin : (s.callers i).Inside := by rw [hpc]; trivial
    cases hslot : s.slot with
    | none =>
      have hopens : s.startOpen.Inv :=
        ⟨h.lock, h.empty, h.current, h.answers, h.count⟩
      have hnext : (s.startOpen.setCaller i (.opening s.opens)).Inv :=
        hopens.inside hin trivial fun _ => hslot
      exact hnext
    | some a =>
      refine h.leave hin id fun b hb => ?_
      cases hb
      exact List.mem_of_getLast? (h.current a hslot)
  | opening a =>
    have hin : (s.callers i).Inside := by rw [hpc]; trivial
    have hslot : s.slot = none := h.empty i (by rw [hpc]; trivial)
    cases htask : s.tasks a with
    | unstarted => simpa only [htask] using h
    | running => simpa only [htask] using h
    | ended ok =>
      cases ok with
      | true =>
        have hnext : (s.setCaller i (.opened a)).Inv := h.inside hin trivial fun _ => hslot
        simpa only [htask] using hnext
      | false =>
        have hnext : (s.unlock.setCaller i (.answered (.error ()))).Inv :=
          h.leave hin id fun b hb => by cases hb
        simpa only [htask] using hnext
  | opened a => exact h.publish a (by rw [hpc]; trivial)
  | answered r => exact h
  | dropped left => exact h

theorem Inv.endOpen (h : s.Inv) (a : HandleId) (ok : Bool) : (s.endOpen a ok).Inv := by
  unfold State.endOpen
  cases s.tasks a with
  | running => exact ⟨h.lock, h.empty, h.current, h.answers, h.count⟩
  | unstarted => exact h
  | ended b => exact h

theorem Inv.dropCall (h : s.Inv) (i : Nat) : (s.dropCall i).Inv := by
  have hnone (left : Option HandleId) : ∀ a, CallerPc.dropped left = .answered (.ok a) →
      a ∈ s.published :=
    fun a ha => by cases ha
  unfold State.dropCall
  cases hpc : s.callers i with
  | called => exact h.outside (by rw [hpc]; exact id) id (hnone none)
  | waiting => exact h.outside (by rw [hpc]; exact id) id (hnone none)
  | locked => exact h.leave (by rw [hpc]; trivial) id (hnone none)
  | opening b => exact h.leave (by rw [hpc]; trivial) id (hnone (some b))
  | opened b => exact h.leave (by rw [hpc]; trivial) id (hnone none)
  | answered r => exact h
  | dropped left => exact h

theorem Inv.takeHandle (h : s.Inv) : s.takeHandle.Inv := by
  unfold State.takeHandle
  cases hslot : s.slot with
  | none => exact h
  | some a =>
    refine ⟨h.lock, fun _ _ => rfl, fun b hb => (by cases hb), h.answers, ?_⟩
    have hcount := h.count
    rw [hslot] at hcount
    exact hcount

theorem Inv.step (h : s.Inv) (e : Event) : (s.step e).Inv := by
  cases e with
  | step i => exact h.advance i
  | openEnds a ok => exact h.endOpen a ok
  | drop i => exact h.dropCall i
  | shutdown => exact h.takeHandle

/-! ### The opens -/

theorem Owned.fresh_state : State.fresh.Owned := ⟨fun _ _ => rfl, fun h hrun => by cases hrun⟩

/-- A call that goes on does not leave its open alone. -/
theorem Owned.setCaller (h : s.Owned) (hpc : ∀ a, s.tasks a = .running → s.CallOf a i →
    pc = .opening a ∨ pc = .dropped (some a)) : (s.setCaller i pc).Owned where
  fresh := h.fresh
  call a ha := by
    obtain ⟨j, hj⟩ := h.call a ha
    refine ⟨j, ?_⟩
    unfold CallOf at hj ⊢
    rw [callers_setCaller]
    split
    · next hji => exact hpc a ha (hji ▸ hj)
    · exact hj

/-- A call that waits for no open. -/
theorem Owned.setCaller_of_not (h : s.Owned) (hnot : ∀ a, ¬ s.CallOf a i) (pc : CallerPc) :
    (s.setCaller i pc).Owned :=
  h.setCaller fun a _ hcall => absurd hcall (hnot a)

theorem Owned.unlock (h : (s.setCaller i pc).Owned) : (s.unlock.setCaller i pc).Owned :=
  ⟨h.fresh, h.call⟩

theorem Owned.start (h : s.Owned) (hnot : ∀ a, ¬ s.CallOf a i) :
    (s.startOpen.setCaller i (.opening s.opens)).Owned where
  fresh a ha := by
    have hne : a ≠ s.opens := Nat.ne_of_gt ha
    show Function.update s.tasks s.opens .running a = .unstarted
    rw [Function.update_of_ne hne]
    exact h.fresh a (Nat.le_of_succ_le ha)
  call a ha := by
    by_cases hne : a = s.opens
    · exact ⟨i, .inl (by rw [callers_setCaller, if_pos rfl, hne])⟩
    · have hrun : s.tasks a = .running := (Function.update_of_ne hne ..).symm.trans ha
      obtain ⟨j, hj⟩ := h.call a hrun
      refine ⟨j, ?_⟩
      unfold CallOf at hj ⊢
      rw [callers_setCaller]
      split
      · next hji => exact absurd (hji ▸ hj) (hnot a)
      · exact hj

theorem Owned.advance (h : s.Owned) (i : Nat) : (s.advance i).Owned := by
  have hnot (hpc : ∀ a, s.callers i ≠ .opening a ∧ s.callers i ≠ .dropped (some a)) (a : HandleId) :
      ¬ s.CallOf a i :=
    fun hcall => hcall.elim (hpc a).1 (hpc a).2
  unfold State.advance
  cases hpc : s.callers i with
  | called =>
    have hcall := hnot fun a => by rw [hpc]; exact ⟨by simp, by simp⟩
    cases s.slot with
    | none => exact h.setCaller_of_not hcall _
    | some a => exact h.setCaller_of_not hcall _
  | waiting =>
    have hcall := hnot fun a => by rw [hpc]; exact ⟨by simp, by simp⟩
    cases s.openLock with
    | some j => exact h
    | none =>
      exact Owned.setCaller_of_not (s := { s with openLock := some i }) ⟨h.fresh, h.call⟩ hcall _
  | locked =>
    have hcall := hnot fun a => by rw [hpc]; exact ⟨by simp, by simp⟩
    cases s.slot with
    | none => exact h.start hcall
    | some a => exact Owned.unlock (h.setCaller_of_not hcall _)
  | opening a =>
    have hended {ok : Bool} (htask : s.tasks a = .ended ok) (pc : CallerPc) :
        (s.setCaller i pc).Owned := by
      refine h.setCaller fun b hb hcall => ?_
      rcases hcall with hcall | hcall <;> rw [hpc] at hcall <;> cases hcall
      rw [htask] at hb
      cases hb
    cases htask : s.tasks a with
    | unstarted => simpa only [htask] using h
    | running => simpa only [htask] using h
    | ended ok =>
      cases ok with
      | true => simpa only [htask] using hended htask _
      | false => simpa only [htask] using (hended htask (.answered (.error ()))).unlock
  | opened a =>
    have hcall := hnot fun a => by rw [hpc]; exact ⟨by simp, by simp⟩
    exact Owned.setCaller_of_not (s :=
      { s with slot := some a, published := s.published ++ [a] }.unlock) ⟨h.fresh, h.call⟩ hcall _
  | answered r => exact h
  | dropped left => exact h

theorem Owned.endOpen (h : s.Owned) (a : HandleId) (ok : Bool) : (s.endOpen a ok).Owned := by
  unfold State.endOpen
  cases htask : s.tasks a with
  | unstarted => exact h
  | ended b => exact h
  | running =>
    refine ⟨fun b hb => ?_, fun b hb => ?_⟩
    · have hne : b ≠ a := by
        rintro rfl
        rw [h.fresh b hb] at htask
        cases htask
      exact (Function.update_of_ne hne ..).trans (h.fresh b hb)
    · refine h.call b ?_
      by_cases hne : b = a
      · rw [hne]
        exact htask
      · exact (Function.update_of_ne hne ..).symm.trans hb

theorem Owned.dropCall (h : s.Owned) (i : Nat) : (s.dropCall i).Owned := by
  have hdrop (left : Option HandleId) (hleft : ∀ a, s.CallOf a i → left = some a) :
      (s.setCaller i (.dropped left)).Owned :=
    h.setCaller fun a _ hcall => .inr (congrArg CallerPc.dropped (hleft a hcall))
  unfold State.dropCall
  cases hpc : s.callers i with
  | answered r => exact h
  | dropped left => exact h
  | opening a =>
    refine Owned.unlock (hdrop (some a) fun b hcall => ?_)
    rcases hcall with hcall | hcall <;> rw [hpc] at hcall <;> cases hcall
    rfl
  | _ =>
    first
    | exact hdrop none fun b hcall => by rcases hcall with hcall | hcall <;> rw [hpc] at hcall <;> cases hcall
    | exact Owned.unlock (hdrop none fun b hcall => by
        rcases hcall with hcall | hcall <;> rw [hpc] at hcall <;> cases hcall)

theorem Owned.step (h : s.Owned) (e : Event) : (s.step e).Owned := by
  cases e with
  | step i => exact h.advance i
  | openEnds a ok => exact h.endOpen a ok
  | drop i => exact h.dropCall i
  | shutdown =>
    show s.takeHandle.Owned
    unfold State.takeHandle
    cases s.slot with
    | none => exact h
    | some a => exact ⟨h.fresh, h.call⟩

end State

/-- However calls, ends of opens, dropped calls and shutdowns interleave: no two calls have the
library opened at once, and of two opens that run at once one was left by a dropped call; an answer
is a handle that was in the slot, and one more handle was in the slot than were taken out of it, at
most. So without a shutdown all calls get the same handle, and it is there to stay. -/
theorem handle_one_library (es : List Event) : Run.Always State.step (fun s =>
    (∀ i j, (s.callers i).Opens → (s.callers j).Opens → i = j) ∧
    (∀ a b, s.tasks a = .running → s.tasks b = .running → a = b ∨
      ∃ i, s.callers i = .dropped (some a) ∨ s.callers i = .dropped (some b)) ∧
    (∀ i h, s.callers i = .answered (.ok h) → h ∈ s.published) ∧ s.published.length ≤ s.taken + 1 ∧
    (s.taken = 0 → ∀ i h, s.callers i = .answered (.ok h) → s.slot = some h)) State.fresh es := by
  refine Run.always_iff_prefix.2 fun pre _ => ?_
  have hinv : (Run.run State.step .fresh pre).Inv :=
    Run.invariant State.Inv (fun s e h => h.step e) State.Inv.fresh
  have howned : (Run.run State.step .fresh pre).Owned :=
    Run.invariant State.Owned (fun s e h => h.step e) State.Owned.fresh_state
  generalize Run.run State.step .fresh pre = s at hinv howned
  have hcount := hinv.count
  have honly {i j : Nat} (hi : (s.callers i).Opens) (hj : (s.callers j).Opens) : i = j :=
    hinv.only (State.inside_of_opens hi) (State.inside_of_opens hj)
  refine ⟨fun i j => honly, fun a b ha hb => ?_, hinv.answers, ?_, ?_⟩
  · obtain ⟨i, hi | hi⟩ := howned.call a ha
    · obtain ⟨j, hj | hj⟩ := howned.call b hb
      · obtain rfl : i = j := honly (by rw [hi]; trivial) (by rw [hj]; trivial)
        exact .inl (CallerPc.opening.inj (hi.symm.trans hj))
      · exact .inr ⟨j, .inr hj⟩
    · exact .inr ⟨i, .inl hi⟩
  · have hle : s.slot.isSome.toNat ≤ 1 := Bool.toNat_le _
    omega
  · intro htaken i h hi
    have hmem := hinv.answers i h hi
    cases hslot : s.slot with
    | none =>
      rw [htaken, hslot] at hcount
      rw [List.length_eq_zero_iff.1 hcount] at hmem
      cases hmem
    | some a =>
      rw [htaken, hslot] at hcount
      obtain ⟨b, hb⟩ := List.length_eq_one_iff.1 hcount
      have hlast := hinv.current a hslot
      rw [hb] at hmem hlast
      rw [List.mem_singleton.1 hmem]
      exact hlast.symm

/-- The call `0` is dropped while the library is being opened, and the call `1` has it opened beside
that. -/
example :
    (Run.run State.step .fresh [.step 0, .step 0, .step 0, .drop 0, .step 1, .step 1,
      .step 1]).tasks 0 = .running ∧
    (Run.run State.step .fresh [.step 0, .step 0, .step 0, .drop 0, .step 1, .step 1,
      .step 1]).tasks 1 = .running := by
  decide

end MemoryLibrary

end Solo
