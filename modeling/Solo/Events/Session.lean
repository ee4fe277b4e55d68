import Mathlib.Algebra.Group.Nat.Defs
import Mathlib.Logic.Function.Basic
import Solo.Lib.Run

/-!
# Session events (`mcp_session.rs`, `http.rs`)

`publish_event` takes an id, pushes the event to the replay buffer under its lock and sends it to
the broadcast channel: three steps, between which other publishers and the streams of `GET /mcp`
run. `published` has every push and `channel` every send, in their order. A receiver is a position
in `channel`; the channel keeps the last 256 sends.
-/

namespace Solo

inductive McpEventKind
  | init | message | progress | lagged | heartbeat
  deriving DecidableEq

/-- The JSON of an event; the last four are made by the stream. -/
inductive McpEventData (V : Type)
  | value (v : V)
  | connected (sessionId : String) (tsMs : ℤ)
  | gap (dropped lastEventId oldestAvailable : ℕ)
  | dropped (n : ℕ)
  | tick (tsMs : ℤ)

structure McpStreamEvent (V : Type) where
  id : ℕ
  event : McpEventKind
  data : McpEventData V

def mcpSessionEventBufferCapacity : ℕ := 256

/-- Where a publisher stands in `publish_event`. -/
inductive PublishPc (V : Type)
  | idle
  | called (kind : McpEventKind) (data : V)
  | allocated (event : McpStreamEvent V)
  | pushed (event : McpStreamEvent V)
  | returned (id : ℕ)

/-- A stream; `frames` is what it has yielded, `subscribedAt` where its receiver began. -/
structure McpStreamState (V : Type) where
  sessionId : String
  lastEventId : ℕ
  subscribedAt : ℕ
  rx : ℕ
  snapshotTaken : Bool
  replayQueue : List (McpStreamEvent V)
  lastEmittedId : Option ℕ
  needsInit : Bool
  frames : List (McpStreamEvent V)

structure SessionState (V : Type) where
  nextEventId : ℕ
  eventReplayBuffer : List (McpStreamEvent V)
  published : List (McpStreamEvent V)
  channel : List (McpStreamEvent V)
  publisher : ℕ → PublishPc V
  stream : ℕ → Option (McpStreamState V)

inductive SessionEvent (V : Type)
  /-- Publisher `i` calls `publish_event`. -/
  | publish (i : ℕ) (kind : McpEventKind) (data : V)
  | advance (i : ℕ)
  /-- Stream `j` is built: it subscribes. -/
  | subscribe (j : ℕ) (sessionId : String) (lastEventId : ℕ)
  | snapshot (j : ℕ)
  /-- Stream `j` is polled: the init frame, a replayed one, or what `recv` gives. -/
  | poll (j : ℕ) (tsMs : ℤ)
  | heartbeat (j : ℕ) (tsMs : ℤ)

variable {V : Type}

namespace McpStreamState

/-- The replay queue for a snapshot of the buffer. `last_event_id + 1` wraps. -/
def replay (st : McpStreamState V) (snapshot : List (McpStreamEvent V)) : List (McpStreamEvent V) :=
  if 0 < st.lastEventId then
    match snapshot.head?, snapshot.getLast? with
    | some oldest, some newest =>
      let next := (st.lastEventId + 1) % 2 ^ 64
      if next < oldest.id then
        ⟨0, .lagged, .gap (oldest.id - next) st.lastEventId oldest.id⟩ :: snapshot
      else if newest.id ≤ st.lastEventId then []
      else snapshot.filter fun e => st.lastEventId < e.id
    | _, _ => []
  else []

def yield (st : McpStreamState V) (e : McpStreamEvent V) : McpStreamState V :=
  { st with frames := st.frames ++ [e] }

/-- A lagged entry has id 0 and does not move the cursor. -/
def drain (st : McpStreamState V) (entry : McpStreamEvent V) (rest : List (McpStreamEvent V)) :
    McpStreamState V :=
  let last := if entry.event ≠ .lagged then some entry.id else st.lastEmittedId
  { st with replayQueue := rest, lastEmittedId := last }.yield entry

/-- One turn of the live loop with what `recv` found in the channel. -/
def recv (st : McpStreamState V) (channel : List (McpStreamEvent V)) : McpStreamState V :=
  let behind := channel.length - st.rx
  if mcpSessionEventBufferCapacity < behind then
    let lost := behind - mcpSessionEventBufferCapacity
    { st with rx := st.rx + lost }.yield ⟨0, .lagged, .dropped lost⟩
  else
    match channel[st.rx]? with
    | none => st
    | some ev =>
      if st.lastEmittedId.any fun last => ev.id ≤ last then { st with rx := st.rx + 1 }
      else { st with rx := st.rx + 1, lastEmittedId := some ev.id }.yield ev

def poll (st : McpStreamState V) (channel : List (McpStreamEvent V)) (tsMs : ℤ) :
    McpStreamState V :=
  if st.needsInit then { st with needsInit := false }.yield ⟨0, .init, .connected st.sessionId tsMs⟩
  else
    match st.replayQueue with
    | entry :: rest => st.drain entry rest
    | [] => st.recv channel

def heartbeat (st : McpStreamState V) (tsMs : ℤ) : McpStreamState V :=
  if st.needsInit ∨ st.replayQueue ≠ [] then st else st.yield ⟨0, .heartbeat, .tick tsMs⟩

end McpStreamState

namespace SessionState

def new : SessionState V := ⟨1, [], [], [], fun _ => .idle, fun _ => none⟩

def setPublisher (s : SessionState V) (i : ℕ) (pc : PublishPc V) : SessionState V :=
  { s with publisher := Function.update s.publisher i pc }

def setStream (s : SessionState V) (j : ℕ) (st : McpStreamState V) : SessionState V :=
  { s with stream := Function.update s.stream j (some st) }

/-- The locked section of `publish_event`. -/
def push (s : SessionState V) (e : McpStreamEvent V) : SessionState V :=
  let buf := s.eventReplayBuffer
  let kept := if mcpSessionEventBufferCapacity ≤ buf.length then buf.drop 1 else buf
  { s with eventReplayBuffer := kept ++ [e], published := s.published ++ [e] }

/-- The next step of publisher `i`. -/
def advance (s : SessionState V) (i : ℕ) : SessionState V :=
  match s.publisher i with
  | .called kind data =>
    { s with nextEventId := (s.nextEventId + 1) % 2 ^ 64 }.setPublisher i
      (.allocated ⟨s.nextEventId, kind, .value data⟩)
  | .allocated e => (s.push e).setPublisher i (.pushed e)
  | .pushed e => { s with channel := s.channel ++ [e] }.setPublisher i (.returned e.id)
  | .idle | .returned _ => s

/-- A new stream, subscribed and not yet snapshotted. -/
def subscribe (s : SessionState V) (sessionId : String) (lastEventId : ℕ) : McpStreamState V :=
  ⟨sessionId, lastEventId, s.channel.length, s.channel.length, false, [], none, true, []⟩

def step (s : SessionState V) : SessionEvent V → SessionState V
  | .publish i kind data =>
    match s.publisher i with
    | .idle | .returned _ => s.setPublisher i (.called kind data)
    | _ => s
  | .advance i => s.advance i
  | .subscribe j sessionId lastEventId =>
    match s.stream j with
    | none => s.setStream j (s.subscribe sessionId lastEventId)
    | some _ => s
  | .snapshot j =>
    match s.stream j with
    | some st =>
      if st.snapshotTaken then s
      else s.setStream j
        { st with snapshotTaken := true, replayQueue := st.replay s.eventReplayBuffer }
    | none => s
  | .poll j tsMs =>
    match s.stream j with
    | some st => if st.snapshotTaken then s.setStream j (st.poll s.channel tsMs) else s
    | none => s
  | .heartbeat j tsMs =>
    match s.stream j with
    | some st => if st.snapshotTaken then s.setStream j (st.heartbeat tsMs) else s
    | none => s

end SessionState

end Solo
