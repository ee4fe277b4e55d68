import Mathlib.Data.List.Range
import Solo.Events.Session
import Solo.Lib.Tickets

/-!
# Events in id order

Two publishers that overlap may push, or send, in the other order than they took their ids: the
replay buffer is then out of order, and a stream that has seen the later event drops the earlier one
(`overlap_not_ordered`). `sessionEvents_ordered`: in every run in which the ids are pushed in turn
and sent in turn, before the counter wraps, the buffer is the last 256 events and every stream that
is not lagged yields each event it owes once, in order.
-/

namespace Solo

variable {V : Type}

namespace McpStreamState

/-- The frames that carry an event of the session; those that the stream makes have id 0. -/
def observed (st : McpStreamState V) : List (McpStreamEvent V) := st.frames.filter fun e => e.id ≠ 0

/-- A lagged frame was yielded or is queued. -/
def isLagged (st : McpStreamState V) : Prop := ∃ e ∈ st.frames ++ st.replayQueue, e.event = .lagged

/-- Everything queued is yielded, and everything sent received. -/
def caughtUp (st : McpStreamState V) (channel : List (McpStreamEvent V)) : Prop :=
  st.snapshotTaken = true ∧ st.replayQueue = [] ∧ st.rx = channel.length

/-- The events after its `Last-Event-ID`; 0 stands for none, and such a stream begins with its
subscription. -/
def owed (st : McpStreamState V) (channel : List (McpStreamEvent V)) : List (McpStreamEvent V) :=
  if st.lastEventId = 0 then channel.drop st.subscribedAt else channel.filter fun e =>
    st.lastEventId < e.id

end McpStreamState

namespace SessionState

structure Ordered (s : SessionState V) : Prop where
  /-- The buffer's ids are consecutive. -/
  consecutive : ∃ first, s.eventReplayBuffer.map McpStreamEvent.id =
    List.range' first s.eventReplayBuffer.length
  bounded : s.eventReplayBuffer.length ≤ 256
  /-- The buffer has published events, and only earlier ones than its own are gone from a full
  buffer. -/
  published : ∀ e ∈ s.eventReplayBuffer, e ∈ s.published
  recent : ∀ e ∈ s.published, e ∈ s.eventReplayBuffer ∨
    s.eventReplayBuffer.length = 256 ∧ ∀ b ∈ s.eventReplayBuffer, e.id < b.id
  increasing : ∀ j st, s.stream j = some st → ¬ st.isLagged → st.observed.Pairwise (·.id < ·.id)
  once : ∀ j st, s.stream j = some st → ¬ st.isLagged → st.caughtUp s.channel →
    ∀ e ∈ st.owed s.channel, st.observed.filter (fun f => f.id = e.id) = [e]

/-- The ids are pushed in turn and sent in turn, the counter does not wrap, and no published event
has the kind of a lagged frame. -/
def InTurn (s : SessionState V) : SessionEvent V → Prop
  | .publish _ kind _ => kind ≠ .lagged
  | .advance i =>
    match s.publisher i with
    | .called _ _ => s.nextEventId + 1 < 2 ^ 64
    | .allocated e => ∀ k e', s.publisher k = .allocated e' → e.id ≤ e'.id
    | .pushed e => ∀ k e', s.publisher k = .pushed e' → e.id ≤ e'.id
    | _ => True
  | _ => True

end SessionState

/-! ### Numbered events -/

/-- The events have the ids 1, 2, … in order. -/
def Numbered (l : List (McpStreamEvent V)) : Prop := ∀ n e, l[n]? = some e → e.id = n + 1

namespace Numbered

variable {P C : List (McpStreamEvent V)} {e : McpStreamEvent V} {a n : ℕ}

theorem nil : Numbered ([] : List (McpStreamEvent V)) := by simp [Numbered]

theorem concat (h : Numbered P) (he : e.id = P.length + 1) : Numbered (P ++ [e]) := by
  intro n f hf
  rcases Nat.lt_or_ge n P.length with hn | hn
  · rw [List.getElem?_append_left hn] at hf
    exact h n f hf
  · rw [List.getElem?_append_right hn] at hf
    obtain ⟨hlen, rfl⟩ := List.getElem?_eq_some_iff.1 hf
    simp only [List.length_cons, List.length_nil] at hlen
    have hn0 : n - P.length = 0 := by omega
    simp only [hn0, List.getElem_cons_zero]
    omega

theorem map_id (h : Numbered P) : P.map McpStreamEvent.id = List.range' 1 P.length := by
  refine List.ext_getElem (by simp) fun n h1 h2 => ?_
  simp only [List.length_map] at h1
  rw [List.getElem_map, List.getElem_range', h n P[n] (List.getElem?_eq_getElem h1)]
  omega

theorem mem_drop (h : Numbered P) (he : e ∈ P.drop a) : a < e.id ∧ e.id ≤ P.length := by
  obtain ⟨n, hn, rfl⟩ := List.mem_drop_iff_getElem.1 he
  rw [h _ _ (List.getElem?_eq_getElem _)]
  omega

theorem mem_take (h : Numbered P) (he : e ∈ P.take a) : e.id ≤ a := by
  obtain ⟨n, hn, rfl⟩ := List.mem_take_iff_getElem.1 he
  have := h n _ (List.getElem?_eq_getElem (by omega))
  omega

theorem getElem?_of_mem (h : Numbered P) (he : e ∈ P) : 0 < e.id ∧ P[e.id - 1]? = some e := by
  obtain ⟨n, hn, rfl⟩ := List.mem_iff_getElem.1 he
  have hid := h n _ (List.getElem?_eq_getElem hn)
  rw [hid]
  exact ⟨Nat.succ_pos n, List.getElem?_eq_getElem hn⟩

theorem pairwise (h : Numbered P) : P.Pairwise (·.id < ·.id) := by
  have hids : (P.map McpStreamEvent.id).Pairwise (· < ·) := by
    rw [h.map_id]
    exact List.pairwise_lt_range'
  exact List.pairwise_map.1 hids

/-- Filtering numbered events by their ids is cutting them. -/
theorem filter_drop (h : Numbered P) (ha : a ≤ n) (hn : n ≤ P.length) :
    ((P.drop a).filter fun e => n < e.id) = P.drop n := by
  have hcut : P.drop a = (P.take n).drop a ++ P.drop n := by
    rw [← List.drop_append_of_le_length (by rw [List.length_take]; omega), List.take_append_drop]
  have hold : ((P.take n).drop a).filter (fun e => n < e.id) = [] := by
    rw [List.filter_eq_nil_iff]
    intro e he
    have := h.mem_take (List.mem_of_mem_drop he)
    simp only [decide_eq_true_eq]
    omega
  have hnew : (P.drop n).filter (fun e => n < e.id) = P.drop n := by
    rw [List.filter_eq_self]
    intro e he
    simpa using (h.mem_drop he).1
  rw [hcut, List.filter_append, hold, hnew, List.nil_append]

/-- An event stands alone among numbered ones. -/
theorem filter_eq (h : Numbered P) (he : e ∈ (P.take n).drop a) :
    (((P.take n).drop a).filter fun f => f.id = e.id) = [e] := by
  have hp : ((P.take n).drop a).Pairwise (·.id < ·.id) :=
    h.pairwise.sublist ((List.drop_sublist _ _).trans (List.take_sublist _ _))
  obtain ⟨l₁, l₂, hl⟩ := List.append_of_mem he
  rw [hl] at hp ⊢
  obtain ⟨-, hp₂, hp₁⟩ := List.pairwise_append.1 hp
  obtain ⟨hlater, -⟩ := List.pairwise_cons.1 hp₂
  have h₁ : l₁.filter (fun f => f.id = e.id) = [] := by
    rw [List.filter_eq_nil_iff]
    intro f hf
    have := hp₁ f hf e List.mem_cons_self
    simp only [decide_eq_true_eq]
    omega
  have h₂ : l₂.filter (fun f => f.id = e.id) = [] := by
    rw [List.filter_eq_nil_iff]
    intro f hf
    have := hlater f hf
    simp only [decide_eq_true_eq]
    omega
  rw [List.filter_append, h₁, List.filter_cons_of_pos (by simp), h₂, List.nil_append]

theorem getLast?_id (h : Numbered P) (ha : a < n) (hn : n ≤ P.length) :
    ((P.take n).drop a).getLast?.map McpStreamEvent.id = some n := by
  have hlast : P[n - 1]? = some P[n - 1] := List.getElem?_eq_getElem (by omega)
  rw [List.getLast?_drop, if_neg (by rw [List.length_take]; omega), List.getLast?_take,
    if_neg (by omega), hlast, Option.some_or, Option.map_some, h _ _ hlast, Option.some_inj]
  omega

end Numbered

/-! ### A stream -/

namespace McpStreamState

/-- Up to the queued entries a stream has the events from `a` to `n`. -/
structure FollowsFrom (st : McpStreamState V) (P : List (McpStreamEvent V)) (sent a n : ℕ) :
    Prop where
  entries : st.observed ++ st.replayQueue = (P.take n).drop a
  bounds : a ≤ n ∧ n ≤ P.length
  rx : st.subscribedAt ≤ st.rx ∧ st.rx ≤ n ∧ st.rx ≤ sent
  /-- Nothing but received events so far. -/
  start : a = n → n = st.rx
  lastEmitted : st.lastEmittedId = st.observed.getLast?.map McpStreamEvent.id
  first : st.lastEventId = 0 → a ≤ st.subscribedAt
  after : st.snapshotTaken = true → st.lastEventId ≠ 0 → a ≤ st.lastEventId
  opening : st.snapshotTaken = false → st.frames = [] ∧ st.replayQueue = [] ∧ a = n

def Follows (st : McpStreamState V) (P : List (McpStreamEvent V)) (sent : ℕ) : Prop :=
  ∃ a n, st.FollowsFrom P sent a n

variable {st : McpStreamState V} {P C : List (McpStreamEvent V)} {e : McpStreamEvent V}
  {sent sent' a n : ℕ}

/-- Publishing and sending leave a stream where it is. -/
theorem Follows.grow (h : st.Follows P sent) (hP : P <+: C) (hs : sent ≤ sent') :
    st.Follows C sent' := by
  obtain ⟨a, n, hf⟩ := h
  obtain ⟨ha, hn⟩ := hf.bounds
  obtain ⟨t, rfl⟩ := hP
  refine ⟨a, n, ?_, ⟨ha, ?_⟩, ⟨hf.rx.1, hf.rx.2.1, Nat.le_trans hf.rx.2.2 hs⟩, hf.start,
    hf.lastEmitted, hf.first, hf.after, hf.opening⟩
  · rw [hf.entries, List.take_append_of_le_length hn]
  · rw [List.length_append]
    omega

theorem snapshotTaken_yield (st : McpStreamState V) (e : McpStreamEvent V) :
    (st.yield e).snapshotTaken = st.snapshotTaken := rfl

theorem snapshotTaken_poll (st : McpStreamState V) (C : List (McpStreamEvent V)) (tsMs : ℤ) :
    (st.poll C tsMs).snapshotTaken = st.snapshotTaken := by
  unfold McpStreamState.poll
  split
  · rfl
  · cases st.replayQueue with
    | cons e rest => rfl
    | nil =>
      dsimp only [McpStreamState.recv]
      split
      · rw [snapshotTaken_yield]
      · cases C[st.rx]? with
        | none => rfl
        | some ev =>
          dsimp only
          split <;> rfl

theorem snapshotTaken_heartbeat (st : McpStreamState V) (tsMs : ℤ) :
    (st.heartbeat tsMs).snapshotTaken = st.snapshotTaken := by
  unfold McpStreamState.heartbeat
  split <;> rfl

theorem isLagged_yield (h : st.isLagged) : (st.yield e).isLagged := by
  obtain ⟨f, hf, hl⟩ := h
  refine ⟨f, ?_, hl⟩
  simp only [yield, List.mem_append] at hf ⊢
  rcases hf with hf | hf
  · exact .inl (.inl hf)
  · exact .inr hf

theorem isLagged_of_yield (h : e.event = .lagged) : (st.yield e).isLagged := ⟨e, by simp [yield], h⟩

theorem observed_yield_synthetic (h : e.id = 0) : (st.yield e).observed = st.observed := by
  simp [observed, yield, h]

theorem observed_yield (h : e.id ≠ 0) : (st.yield e).observed = st.observed ++ [e] := by
  simp [observed, yield, h]

/-- A frame of the stream's own. -/
theorem FollowsFrom.yield_synthetic (h : st.FollowsFrom P sent a n) (he : e.id = 0)
    (ht : st.snapshotTaken = true) : (st.yield e).FollowsFrom P sent a n where
  entries := by rw [observed_yield_synthetic he]; exact h.entries
  bounds := h.bounds
  rx := h.rx
  start := h.start
  lastEmitted := by rw [observed_yield_synthetic he]; exact h.lastEmitted
  first := h.first
  after := h.after
  opening := fun hf => absurd (ht.symm.trans hf) (by simp)

/-- The whole buffer for a client that lost events, and else the events after its id. -/
theorem replay_cases (hP : Numbered P) (st : McpStreamState V) (hlen : P.length < 2 ^ 64) :
    (∃ e ∈ st.replay (P.drop (P.length - 256)), e.event = .lagged) ∨
    st.replay (P.drop (P.length - 256)) = [] ∧ (st.lastEventId = 0 ∨ P.length ≤ st.lastEventId) ∨
    0 < st.lastEventId ∧ st.lastEventId < P.length ∧
      st.replay (P.drop (P.length - 256)) = P.drop st.lastEventId := by
  unfold replay
  by_cases h0 : 0 < st.lastEventId
  case neg => exact .inr (.inl ⟨if_neg h0, .inl (by omega)⟩)
  rw [if_pos h0]
  rcases Nat.eq_zero_or_pos P.length with hnil | hpos
  · obtain rfl := List.length_eq_zero_iff.1 hnil
    exact .inr (.inl ⟨by simp, .inr (Nat.zero_le _)⟩)
  obtain ⟨oldest, hfirst⟩ : ∃ e, P[P.length - 256]? = some e :=
    ⟨_, List.getElem?_eq_getElem (by omega)⟩
  obtain ⟨newest, hlast⟩ : ∃ e, P[P.length - 1]? = some e :=
    ⟨_, List.getElem?_eq_getElem (by omega)⟩
  have hhead : (P.drop (P.length - 256)).head? = some oldest := by rw [List.head?_drop, hfirst]
  have htail : (P.drop (P.length - 256)).getLast? = some newest := by
    rw [List.getLast?_drop, if_neg (by omega), List.getLast?_eq_getElem?, hlast]
  rw [hhead, htail]
  simp only [hP _ _ hfirst, hP _ _ hlast]
  split
  case isTrue => exact .inl ⟨_, List.mem_cons_self, rfl⟩
  case isFalse hnext =>
    split
    case isTrue hnew => exact .inr (.inl ⟨rfl, .inr (by omega)⟩)
    case isFalse hold =>
      have hmod : (st.lastEventId + 1) % 2 ^ 64 = st.lastEventId + 1 := Nat.mod_eq_of_lt (by omega)
      refine .inr (.inr ⟨h0, by omega, hP.filter_drop ?_ ?_⟩) <;> omega

theorem Follows.snapshot (h : st.Follows P C.length) (hP : Numbered P) (hlen : P.length < 2 ^ 64)
    (hC : C <+: P) (ht : st.snapshotTaken = false) :
    { st with snapshotTaken := true, replayQueue := st.replay (P.drop (P.length - 256)) }.isLagged ∨
    { st with snapshotTaken := true, replayQueue := st.replay (P.drop (P.length - 256)) }.Follows P
    C.length := by
  obtain ⟨a, n, hf⟩ := h
  obtain ⟨hframes, -, ha⟩ := hf.opening ht
  have hrx := hf.start ha
  have hobs : st.observed = [] := by rw [observed, hframes]; rfl
  have hsent := hC.length_le
  rcases replay_cases hP st hlen with ⟨e, he, hl⟩ | ⟨hnone, hid⟩ | ⟨hpos, hlt, hsome⟩
  · exact .inl ⟨e, List.mem_append_right _ he, hl⟩
  · refine .inr ⟨a, n, ?_, hf.bounds, hf.rx, hf.start, hf.lastEmitted, hf.first,
      fun _ hne => ?_, by simp⟩
    · show st.observed ++ _ = _
      rw [hobs, hnone, ha]
      simp
    · -- a client that is up to date: what it receives is newer than the buffer
      have := hf.bounds
      rcases hid with h0 | hle
      · exact absurd h0 hne
      · exact Nat.le_trans (Nat.le_trans hf.bounds.1 hf.bounds.2) hle
  · refine .inr ⟨st.lastEventId, P.length, ?_, ⟨Nat.le_of_lt hlt, Nat.le_refl _⟩,
      ⟨hf.rx.1, ?_, hf.rx.2.2⟩,
      fun hne => absurd hne (Nat.ne_of_lt hlt), hf.lastEmitted,
      fun h0 => absurd h0 (Nat.ne_of_gt hpos), fun _ _ => Nat.le_refl _, by simp⟩
    · show st.observed ++ _ = _
      rw [hobs, hsome, List.take_length, List.nil_append]
    · exact Nat.le_trans hf.rx.2.1 hf.bounds.2

/-- The next entry of the queue is yielded. -/
theorem Follows.drain {rest : List (McpStreamEvent V)} (h : st.Follows P sent) (hP : Numbered P)
    (hk : ∀ f ∈ P, f.event ≠ .lagged) (ht : st.snapshotTaken = true)
    (hq : st.replayQueue = e :: rest) : (st.drain e rest).Follows P sent := by
  obtain ⟨a, n, hf⟩ := h
  have hentries := hf.entries
  rw [hq] at hentries
  have hmem : e ∈ P := by
    have he : e ∈ (P.take n).drop a := by
      rw [← hentries]
      simp
    exact List.mem_of_mem_take (List.mem_of_mem_drop he)
  have hid : e.id ≠ 0 := by
    have := (hP.getElem?_of_mem hmem).1
    omega
  have hobs : (st.drain e rest).observed = st.observed ++ [e] := observed_yield hid
  refine ⟨a, n, ?_, hf.bounds, hf.rx, hf.start, ?_, hf.first, hf.after,
    fun hfalse => absurd (ht.symm.trans hfalse) (by simp)⟩
  · rw [hobs, List.append_assoc]
    exact hentries
  · rw [hobs, List.getLast?_concat, Option.map_some]
    exact if_pos (hk e hmem)

/-- What the cursor of a drained stream says. -/
theorem FollowsFrom.cursor (h : st.FollowsFrom P sent a n) (hP : Numbered P)
    (hq : st.replayQueue = []) :
    st.lastEmittedId = none ∧ n = st.rx ∨ st.lastEmittedId = some n := by
  have hobs : st.observed = (P.take n).drop a := by rw [← h.entries, hq, List.append_nil]
  rw [h.lastEmitted, hobs]
  rcases Nat.eq_or_lt_of_le h.bounds.1 with heq | hlt
  · refine .inl ⟨?_, h.start heq⟩
    rw [heq, List.drop_eq_nil_of_le (by rw [List.length_take]; omega)]
    rfl
  · exact .inr (hP.getLast?_id hlt h.bounds.2)

theorem Follows.recv (h : st.Follows P C.length) (hP : Numbered P) (hC : C <+: P)
    (ht : st.snapshotTaken = true)
    (hq : st.replayQueue = []) : (st.recv C).isLagged ∨ (st.recv C).Follows P C.length := by
  obtain ⟨a, n, hf⟩ := h
  unfold McpStreamState.recv
  dsimp only
  split
  case isTrue => exact .inl (isLagged_of_yield rfl)
  cases hev : C[st.rx]? with
  | none => exact .inr ⟨a, n, hf⟩
  | some ev =>
    have hrx : st.rx < C.length := (List.getElem?_eq_some_iff.1 hev).1
    have hevP : P[st.rx]? = some ev := by
      obtain ⟨t, rfl⟩ := hC
      rw [List.getElem?_append_left hrx, hev]
    have hid : ev.id = st.rx + 1 := hP _ _ hevP
    have hlen : st.rx < P.length := (List.getElem?_eq_some_iff.1 hevP).1
    have hn := hf.rx.2.1
    have hsub := hf.rx.1
    have hcur := hf.cursor hP hq
    dsimp only
    split
    case isTrue hseen =>
      -- the cursor is past the event, so the replay had it
      obtain ⟨hnone, -⟩ | hsome := hcur
      · rw [hnone] at hseen
        simp at hseen
      rw [hsome, Option.any_some, decide_eq_true_eq, hid] at hseen
      refine .inr ⟨a, n, hf.entries, hf.bounds, ⟨?_, hseen, hrx⟩, fun hne => ?_, hf.lastEmitted,
        hf.first, hf.after, fun hfalse => absurd (ht.symm.trans hfalse) (by simp)⟩
      · exact Nat.le_succ_of_le hsub
      · have := hf.start hne
        omega
    case isFalse hnew =>
      have hnrx : n = st.rx := by
        obtain ⟨-, heq⟩ | hsome := hcur
        · exact heq
        · rw [hsome, Option.any_some, decide_eq_true_eq, hid] at hnew
          omega
      have hobs : ({ st with rx := st.rx + 1, lastEmittedId := some ev.id }.yield ev).observed =
          st.observed ++ [ev] :=
        observed_yield (by omega)
      have hentries : st.observed = (P.take n).drop a := by rw [← hf.entries, hq, List.append_nil]
      have ha := hf.bounds.1
      refine .inr ⟨a, n + 1, ?_, ⟨by omega, by omega⟩, ⟨?_, ?_, hrx⟩,
        fun hne => absurd hne (by omega), ?_, hf.first,
        hf.after, fun hfalse => absurd (ht.symm.trans hfalse) (by simp)⟩
      · rw [hobs, hentries, List.take_add_one, hnrx, hevP,
          List.drop_append_of_le_length (by rw [List.length_take]; omega)]
        exact (congrArg _ hq).trans (List.append_nil _)
      · exact Nat.le_succ_of_le hsub
      · exact Nat.succ_le_succ (Nat.le_of_eq hnrx.symm)
      · rw [hobs, List.getLast?_concat]
        rfl

theorem Follows.poll (h : st.Follows P C.length) (hP : Numbered P) (hk : ∀ f ∈ P, f.event ≠ .lagged)
    (hC : C <+: P)
    (ht : st.snapshotTaken = true) (tsMs : ℤ) : (st.poll C tsMs).isLagged ∨
    (st.poll C tsMs).Follows P C.length := by
  unfold McpStreamState.poll
  split
  case isTrue =>
    obtain ⟨a, n, hf⟩ := h
    have hf' : { st with needsInit := false }.FollowsFrom P C.length a n :=
      ⟨hf.entries, hf.bounds, hf.rx, hf.start, hf.lastEmitted, hf.first, hf.after, hf.opening⟩
    exact .inr ⟨a, n, hf'.yield_synthetic rfl ht⟩
  case isFalse =>
    cases hq : st.replayQueue with
    | nil => exact h.recv hP hC ht hq
    | cons e rest => exact .inr (h.drain hP hk ht hq)

theorem Follows.heartbeat (h : st.Follows P sent) (ht : st.snapshotTaken = true) (tsMs : ℤ) :
    (st.heartbeat tsMs).Follows P sent := by
  unfold McpStreamState.heartbeat
  split
  · exact h
  · obtain ⟨a, n, hf⟩ := h
    exact ⟨a, n, hf.yield_synthetic rfl ht⟩

theorem isLagged_mono {st' : McpStreamState V} (h : st.isLagged)
    (hf : ∀ f ∈ st.frames ++ st.replayQueue, f ∈ st'.frames ++ st'.replayQueue) : st'.isLagged := by
  obtain ⟨f, hmem, hl⟩ := h
  exact ⟨f, hf f hmem, hl⟩

theorem isLagged_recv (h : st.isLagged) : (st.recv C).isLagged := by
  unfold McpStreamState.recv
  dsimp only
  split
  · exact isLagged_of_yield rfl
  · cases C[st.rx]? with
    | none => exact h
    | some ev =>
      dsimp only
      split
      · exact h
      · have hnext :
            ({ st with rx := st.rx + 1, lastEmittedId := some ev.id } :
              McpStreamState V).isLagged := h
        exact isLagged_yield hnext

theorem isLagged_poll (h : st.isLagged) (tsMs : ℤ) : (st.poll C tsMs).isLagged := by
  unfold McpStreamState.poll
  split
  · have hinit : ({ st with needsInit := false } : McpStreamState V).isLagged := h
    exact isLagged_yield hinit
  · cases hq : st.replayQueue with
    | nil => exact isLagged_recv h
    | cons e rest =>
      refine isLagged_mono h fun f hf => ?_
      rw [hq] at hf
      simpa [drain, yield] using hf

theorem isLagged_heartbeat (h : st.isLagged) (tsMs : ℤ) : (st.heartbeat tsMs).isLagged := by
  unfold McpStreamState.heartbeat
  split
  · exact h
  · exact isLagged_yield h

/-- The frames of a stream that follows are numbered events. -/
theorem FollowsFrom.pairwise (h : st.FollowsFrom P sent a n) (hP : Numbered P) :
    st.observed.Pairwise (·.id < ·.id) := by
  have hsub : st.observed.Sublist P := by
    refine (List.sublist_append_left _ st.replayQueue).trans ?_
    rw [h.entries]
    exact (List.drop_sublist _ _).trans (List.take_sublist _ _)
  exact hP.pairwise.sublist hsub

theorem FollowsFrom.once (h : st.FollowsFrom P C.length a n) (hP : Numbered P) (hC : C <+: P)
    (hup : st.caughtUp C)
    (he : e ∈ st.owed C) : st.observed.filter (fun f => f.id = e.id) = [e] := by
  obtain ⟨htaken, hq, hrx⟩ := hup
  have hobs : st.observed = (P.take n).drop a := by rw [← h.entries, hq, List.append_nil]
  have hlater : a < e.id := by
    rcases Nat.eq_zero_or_pos st.lastEventId with h0 | hpos
    · rw [owed, if_pos h0] at he
      have hdrop : e ∈ P.drop st.subscribedAt := by
        exact (hC.drop st.subscribedAt).subset he
      exact Nat.lt_of_le_of_lt (h.first h0) (hP.mem_drop hdrop).1
    · rw [owed, if_neg (Nat.ne_of_gt hpos), List.mem_filter, decide_eq_true_eq] at he
      exact Nat.lt_of_le_of_lt (h.after htaken (Nat.ne_of_gt hpos)) he.2
  have hmem : e ∈ C := by
    unfold owed at he
    split at he
    · exact List.mem_of_mem_drop he
    · exact (List.mem_filter.1 he).1
  have hle : e.id ≤ C.length := by
    have htake := List.prefix_iff_eq_take.1 hC
    rw [htake] at hmem
    exact hP.mem_take hmem
  obtain ⟨hpos, hget⟩ := hP.getElem?_of_mem (hC.subset hmem)
  have hn := h.rx.2.1
  have hat : ((P.take n).drop a)[e.id - 1 - a]? = some e := by
    rw [List.getElem?_drop, List.getElem?_take_of_lt (by omega),
      show a + (e.id - 1 - a) = e.id - 1 by omega, hget]
  rw [hobs]
  exact hP.filter_eq (List.mem_of_getElem? hat)

end McpStreamState

/-! ### The session -/

namespace PublishPc

/-- The id that is taken and not yet pushed. -/
def allocatedId : PublishPc V → Option ℕ
  | .allocated e => some e.id
  | _ => none

/-- The id that is pushed and not yet sent. -/
def pushedId : PublishPc V → Option ℕ
  | .pushed e => some e.id
  | _ => none

/-- What a publisher has in hand. -/
def Ok (P : List (McpStreamEvent V)) : PublishPc V → Prop
  | .called kind _ => kind ≠ .lagged
  | .allocated e => e.event ≠ .lagged
  | .pushed e => e ∈ P
  | _ => True

theorem Ok.mono {P C : List (McpStreamEvent V)} {pc : PublishPc V} (h : pc.Ok P) (hP : P <+: C) :
    pc.Ok C := by
  cases pc with
  | pushed e => exact hP.subset h
  | idle | called _ _ | allocated _ | returned _ => exact h

end PublishPc

namespace SessionState

open McpStreamState

structure Inv (s : SessionState V) : Prop where
  numbered : Numbered s.published
  sent : s.channel <+: s.published
  buffer : s.eventReplayBuffer = s.published.drop (s.published.length - 256)
  positive : 0 < s.nextEventId
  counter : s.nextEventId < 2 ^ 64
  kinds : ∀ e ∈ s.published, e.event ≠ .lagged
  publishers : ∀ i, (s.publisher i).Ok s.published
  unpushed : Tickets (fun i => (s.publisher i).allocatedId) s.published.length (s.nextEventId - 1)
  unsent : Tickets (fun i => (s.publisher i).pushedId) s.channel.length s.published.length
  streams : ∀ j st, s.stream j = some st →
    st.snapshotTaken = true ∧ st.isLagged ∨ st.Follows s.published s.channel.length

variable {s : SessionState V} {e : McpStreamEvent V} {st : McpStreamState V} {i j : ℕ}
  {pc : PublishPc V}

theorem inv_new : (new : SessionState V).Inv where
  numbered := .nil
  sent := List.prefix_refl _
  buffer := by simp [new]
  positive := Nat.one_pos
  counter := by simp [new]
  kinds := by simp [new]
  publishers := fun _ => trivial
  unpushed := .empty 0
  unsent := .empty 0
  streams := fun _ _ h => by cases h

theorem Inv.bounded (h : s.Inv) : s.published.length < 2 ^ 64 := by
  have := h.unpushed.le
  have := h.counter
  omega

theorem update_ids (f : PublishPc V → Option ℕ) (publisher : ℕ → PublishPc V) (i : ℕ)
    (pc : PublishPc V) :
    (fun k => f (Function.update publisher i pc k)) = Function.update (fun k => f (publisher k))
    i (f pc) :=
  Function.comp_update f publisher i pc

theorem publishers_update {P : List (McpStreamEvent V)} (h : ∀ i, (s.publisher i).Ok P)
    (hpc : pc.Ok P) (k : ℕ) : (Function.update s.publisher i pc k).Ok P := by
  by_cases hk : k = i
  · subst hk
    rwa [Function.update_self]
  · rw [Function.update_of_ne hk]
    exact h k

/-- Publisher `i` goes on without an id. -/
theorem Inv.call (h : s.Inv) (hi : (s.publisher i).allocatedId = none)
    (hi' : (s.publisher i).pushedId = none)
    (kind : McpEventKind) (data : V) (hk : kind ≠ .lagged) :
    (s.setPublisher i (.called kind data)).Inv :=
  { h with
    publishers := publishers_update h.publishers hk
    unpushed := by
      show Tickets (fun k => (Function.update s.publisher i _ k).allocatedId) _ _
      rw [update_ids]
      exact h.unpushed.keep hi
    unsent := by
      show Tickets (fun k => (Function.update s.publisher i _ k).pushedId) _ _
      rw [update_ids]
      exact h.unsent.keep hi' }

/-- Publisher `i` takes the next id. -/
theorem Inv.allocate (h : s.Inv) {kind : McpEventKind} {data : V}
    (hi : s.publisher i = .called kind data)
    (hmax : s.nextEventId + 1 < 2 ^ 64) : (s.advance i).Inv := by
  have hnext : (s.nextEventId + 1) % 2 ^ 64 = s.nextEventId + 1 := Nat.mod_eq_of_lt hmax
  have hid : s.nextEventId = s.nextEventId - 1 + 1 := by
    have := h.positive
    omega
  have hk : kind ≠ .lagged := by
    have := h.publishers i
    rwa [hi] at this
  unfold advance
  rw [hi]
  dsimp only
  exact
    { h with
      positive := by
        show 0 < (s.nextEventId + 1) % 2 ^ 64
        rw [hnext]
        exact Nat.succ_pos _
      counter := Nat.mod_lt _ (Nat.two_pow_pos 64)
      publishers := publishers_update h.publishers hk
      unpushed := by
        show Tickets (fun k => (Function.update s.publisher i _ k).allocatedId) _ ((s.nextEventId + 1) % 2 ^ 64 - 1)
        rw [update_ids, hnext, Nat.add_sub_cancel]
        have hdraw := h.unpushed.draw (i := i) (by rw [hi]; rfl)
        rwa [← hid] at hdraw
      unsent := by
        show Tickets (fun k => (Function.update s.publisher i _ k).pushedId) _ _
        rw [update_ids]
        exact h.unsent.keep (by rw [hi]; rfl) }

theorem push_buffer (s : SessionState V) (e : McpStreamEvent V)
    (h : s.eventReplayBuffer = s.published.drop (s.published.length - 256)) :
    (s.push e).eventReplayBuffer = (s.push e).published.drop
    ((s.push e).published.length - 256) := by
  simp only [push, mcpSessionEventBufferCapacity, h, List.length_drop, List.length_append,
    List.length_cons, List.length_nil]
  rw [List.drop_append_of_le_length (by omega)]
  split
  case isTrue hfull =>
    rw [List.drop_drop, show s.published.length - 256 + 1 = s.published.length + (0 + 1) -
      256 by omega]
  case isFalse hfull =>
    rw [show s.published.length + (0 + 1) - 256 = s.published.length - 256 by omega]

/-- Publisher `i` pushes in turn. -/
theorem Inv.push (h : s.Inv) (hi : s.publisher i = .allocated e)
    (hturn : ∀ k e', s.publisher k = .allocated e' → e.id ≤ e'.id) : (s.advance i).Inv := by
  have hid : e.id = s.published.length + 1 := by
    refine h.unpushed.least (i := i) (by rw [hi]; rfl) fun k id hk => ?_
    cases hp : s.publisher k with
    | allocated e' =>
      rw [hp] at hk
      obtain rfl := Option.some.inj hk
      exact hturn k e' hp
    | idle | called _ _ | pushed _ | returned _ =>
      rw [hp] at hk
      cases hk
  have hk : e.event ≠ .lagged := by
    have := h.publishers i
    rwa [hi] at this
  have hgrow : s.published <+: s.published ++ [e] := List.prefix_append _ _
  have hlen : (s.published ++ [e]).length = s.published.length + 1 := List.length_append
  unfold advance
  rw [hi]
  dsimp only
  exact
    { h with
      numbered := h.numbered.concat hid
      sent := h.sent.trans hgrow
      buffer := push_buffer s e h.buffer
      kinds := by
        intro f hf
        rcases List.mem_append.1 hf with hf | hf
        · exact h.kinds f hf
        · rwa [List.mem_singleton.1 hf]
      publishers :=
        publishers_update (fun k => (h.publishers k).mono hgrow)
          (List.mem_append_right _ (List.mem_singleton_self e))
      unpushed := by
        show Tickets (fun k => (Function.update s.publisher i _ k).allocatedId) (s.published ++ [e]).length _
        rw [update_ids, hlen]
        exact h.unpushed.handIn (by rw [hi, ← hid]; rfl)
      unsent := by
        show Tickets (fun k => (Function.update s.publisher i _ k).pushedId) _ (s.published ++ [e]).length
        rw [update_ids, hlen]
        have hdraw := h.unsent.draw (i := i) (by rw [hi]; rfl)
        rw [← hid] at hdraw ⊢
        exact hdraw
      streams := fun j st hj => (h.streams j st hj).imp_right fun hf => hf.grow hgrow (Nat.le_refl _) }

/-- Publisher `i` sends in turn. -/
theorem Inv.send (h : s.Inv) (hi : s.publisher i = .pushed e)
    (hturn : ∀ k e', s.publisher k = .pushed e' → e.id ≤ e'.id) : (s.advance i).Inv := by
  have hid : e.id = s.channel.length + 1 := by
    refine h.unsent.least (i := i) (by rw [hi]; rfl) fun k id hk => ?_
    cases hp : s.publisher k with
    | pushed e' =>
      rw [hp] at hk
      obtain rfl := Option.some.inj hk
      exact hturn k e' hp
    | idle | called _ _ | allocated _ | returned _ =>
      rw [hp] at hk
      cases hk
  have hmem : e ∈ s.published := by
    have := h.publishers i
    rwa [hi] at this
  have hlen : (s.channel ++ [e]).length = s.channel.length + 1 := List.length_append
  have hsent : s.channel ++ [e] <+: s.published := by
    have hget := (h.numbered.getElem?_of_mem hmem).2
    rw [hid, Nat.add_sub_cancel] at hget
    have htake : s.channel ++ [e] = s.published.take (s.channel.length + 1) := by
      rw [List.take_add_one, hget, ← List.prefix_iff_eq_take.1 h.sent]
      rfl
    rw [htake]
    exact List.take_prefix _ _
  unfold advance
  rw [hi]
  dsimp only
  exact
    { h with
      sent := hsent
      publishers := publishers_update h.publishers trivial
      unpushed := by
        show Tickets (fun k => (Function.update s.publisher i _ k).allocatedId) _ _
        rw [update_ids]
        exact h.unpushed.keep (by rw [hi]; rfl)
      unsent := by
        show Tickets (fun k => (Function.update s.publisher i _ k).pushedId) (s.channel ++ [e]).length _
        rw [update_ids, hlen]
        exact h.unsent.handIn (by rw [hi, ← hid]; rfl)
      streams := fun j st hj => (h.streams j st hj).imp_right fun hf =>
        hf.grow (List.prefix_refl _) (hlen.symm ▸ Nat.le_succ s.channel.length) }

theorem Inv.advance (h : s.Inv) (hg : s.InTurn (.advance i)) : (s.advance i).Inv := by
  cases hi : s.publisher i with
  | called kind data => exact h.allocate hi (by simpa only [InTurn, hi] using hg)
  | allocated e => exact h.push hi (by simpa only [InTurn, hi] using hg)
  | pushed e => exact h.send hi (by simpa only [InTurn, hi] using hg)
  | idle | returned _ =>
    unfold SessionState.advance
    rw [hi]
    exact h

theorem Inv.setStream (h : s.Inv)
    (hst : st.snapshotTaken = true ∧ st.isLagged ∨ st.Follows s.published s.channel.length) :
    (s.setStream j st).Inv :=
  { h with
    streams := by
      intro k st' hk
      by_cases hkj : k = j
      · subst hkj
        have hself : (s.setStream k st).stream k = some st := Function.update_self ..
        obtain rfl := Option.some.inj (hself.symm.trans hk)
        exact hst
      · have hother : (s.setStream j st).stream k = s.stream k := Function.update_of_ne hkj ..
        exact h.streams k st' (hother.symm.trans hk) }

/-- A new stream has received everything. -/
theorem Inv.subscribe (h : s.Inv) (sessionId : String) (lastEventId : ℕ) :
    (s.subscribe sessionId lastEventId).Follows s.published s.channel.length := by
  have hle := h.sent.length_le
  refine ⟨s.channel.length, s.channel.length, ?_, ⟨Nat.le_refl _, hle⟩,
    ⟨Nat.le_refl _, Nat.le_refl _, Nat.le_refl _⟩,
    fun _ => rfl, rfl, fun _ => Nat.le_refl _, by rintro ⟨⟩, fun _ => ⟨rfl, rfl, rfl⟩⟩
  rw [List.drop_eq_nil_of_le (by rw [List.length_take]; omega)]
  rfl

theorem Inv.step (h : s.Inv) (ev : SessionEvent V) (hg : s.InTurn ev) : (s.step ev).Inv := by
  cases ev with
  | publish i kind data =>
    simp only [SessionState.step]
    cases hi : s.publisher i with
    | idle | returned _ => exact h.call (by rw [hi]; rfl) (by rw [hi]; rfl) kind data hg
    | called _ _ | allocated _ | pushed _ => exact h
  | advance i => exact h.advance hg
  | subscribe j sessionId lastEventId =>
    simp only [SessionState.step]
    cases s.stream j with
    | none => exact h.setStream (.inr (h.subscribe sessionId lastEventId))
    | some _ => exact h
  | snapshot j =>
    simp only [SessionState.step]
    cases hj : s.stream j with
    | none => exact h
    | some st =>
      dsimp only
      split
      case isTrue => exact h
      case isFalse ht =>
        rw [h.buffer]
        refine h.setStream ?_
        have htaken : st.snapshotTaken = false := by simpa using ht
        rcases h.streams j st hj with ⟨htrue, -⟩ | hf
        · exact absurd htrue ht
        · exact (hf.snapshot h.numbered h.bounded h.sent htaken).imp_left fun hl => ⟨rfl, hl⟩
  | poll j tsMs =>
    simp only [SessionState.step]
    cases hj : s.stream j with
    | none => exact h
    | some st =>
      dsimp only
      split
      case isFalse => exact h
      case isTrue ht =>
        refine h.setStream ?_
        have hkept : (st.poll s.channel tsMs).snapshotTaken = true :=
          (snapshotTaken_poll st s.channel tsMs).trans ht
        rcases h.streams j st hj with ⟨-, hl⟩ | hf
        · exact .inl ⟨hkept, isLagged_poll hl tsMs⟩
        · exact (hf.poll h.numbered h.kinds h.sent ht tsMs).imp_left fun hl => ⟨hkept, hl⟩
  | heartbeat j tsMs =>
    simp only [SessionState.step]
    cases hj : s.stream j with
    | none => exact h
    | some st =>
      dsimp only
      split
      case isFalse => exact h
      case isTrue ht =>
        refine h.setStream ?_
        rcases h.streams j st hj with ⟨-, hl⟩ | hf
        · exact .inl ⟨(snapshotTaken_heartbeat st tsMs).trans ht, isLagged_heartbeat hl tsMs⟩
        · exact .inr (hf.heartbeat ht tsMs)

theorem Inv.ordered (h : s.Inv) : s.Ordered where
  consecutive := by
    refine ⟨1 + (s.published.length - 256), ?_⟩
    rw [h.buffer, List.map_drop, h.numbered.map_id, List.drop_range', List.length_drop, Nat.mul_one]
  bounded := by
    rw [h.buffer, List.length_drop]
    omega
  published := by
    rw [h.buffer]
    exact fun e he => List.mem_of_mem_drop he
  recent := by
    intro e he
    obtain ⟨hpos, hget⟩ := h.numbered.getElem?_of_mem he
    rw [h.buffer, List.length_drop]
    by_cases hkept : s.published.length - 256 < e.id
    · have hat :
          (s.published.drop (s.published.length - 256))[e.id - 1 - (s.published.length - 256)]? =
          some e := by
        rw [List.getElem?_drop, Nat.add_sub_cancel' (by omega), hget]
      exact .inl (List.mem_of_getElem? hat)
    · refine .inr ⟨by omega, fun b hb => ?_⟩
      have := (h.numbered.mem_drop hb).1
      omega
  increasing := by
    intro j st hj hlag
    rcases h.streams j st hj with ⟨-, hl⟩ | ⟨a, n, hf⟩
    · exact absurd hl hlag
    · exact hf.pairwise h.numbered
  once := by
    intro j st hj hlag hup e he
    rcases h.streams j st hj with ⟨-, hl⟩ | ⟨a, n, hf⟩
    · exact absurd hl hlag
    · exact hf.once h.numbered h.sent hup he

end SessionState

open SessionState

/-- In every run that publishes in turn, the events are delivered in the order of their ids. -/
theorem sessionEvents_ordered (es : List (SessionEvent V)) (hg : Run.Guarded step InTurn new es) :
    Run.Always step Ordered new es :=
  hg.always Inv (fun _ ev h hc => h.step ev hc) (fun _ h => h.ordered) inv_new

namespace Overlap

/-- A stream is open; then publisher 1 takes id 1, publisher 2 takes id 2 and runs through, and
publisher 1 goes on. -/
def overlap : List (SessionEvent Bool) :=
  [.subscribe 0 "session" 0, .snapshot 0, .poll 0 0, .publish 1 .message true,
    .publish 2 .progress false, .advance 1,
    .advance 2, .advance 2, .advance 2, .advance 1, .advance 1, .poll 0 1, .poll 0 2]

/-- What the stream is after it. -/
def overlapped : McpStreamState Bool :=
  ⟨"session", 0, 0, 2, true, [], some 2, false,
    [⟨0, .init, .connected "session" 0⟩, ⟨2, .progress, .value false⟩]⟩

/-- One publisher sends two events; a client that has seen the first connects before the second is
sent. -/
def inTurn : List (SessionEvent Bool) :=
  [.publish 1 .message true, .advance 1, .advance 1, .advance 1, .publish 1 .progress false,
    .advance 1, .advance 1,
    .subscribe 0 "session" 1, .snapshot 0, .advance 1, .poll 0 0, .poll 0 1, .poll 0 2]

theorem inTurn_guarded : Run.Guarded step InTurn new inTurn := by
  refine ⟨by rintro ⟨⟩, ?_, ?_, ?_, by rintro ⟨⟩, ?_, ?_, trivial, trivial, ?_, trivial, trivial, trivial, trivial⟩
  case refine_1 => exact (by decide : 1 + 1 < 2 ^ 64)
  case refine_4 => exact (by decide : 2 + 1 < 2 ^ 64)
  all_goals
    intro k e' hk
    by_cases h1 : k = 1
    · subst h1
      cases hk
      exact Nat.le_refl _
    · simp [SessionState.step, SessionState.advance, SessionState.push, SessionState.subscribe, new,
        setPublisher, setStream, h1] at hk

end Overlap

open Overlap

theorem sessionEvents_ordered_inTurn : Run.Always step Ordered new inTurn :=
  sessionEvents_ordered inTurn inTurn_guarded

/-- The stream drops the first event. -/
theorem overlap_not_ordered : ¬ Run.Always step Ordered new overlap := by
  intro h
  have hj : (Run.run step new overlap).stream 0 = some overlapped := by rfl
  have hlag : ¬ overlapped.isLagged := by
    rintro ⟨e, he, hl⟩
    simp only [overlapped, List.append_nil, List.mem_cons, List.not_mem_nil, or_false] at he
    rcases he with rfl | rfl
    · cases hl
    · cases hl
  have hup : overlapped.caughtUp (Run.run step new overlap).channel := ⟨rfl, rfl, rfl⟩
  have honce := h.last.once 0 overlapped hj hlag hup ⟨1, .message, .value true⟩
    (List.mem_of_getElem? (show _[1]? = _ from rfl))
  exact absurd honce (by rintro ⟨⟩)

end Solo
