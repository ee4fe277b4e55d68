import Mathlib.Algebra.Group.Int.Defs
import Mathlib.Data.List.Basic
import Solo.Lib.Text

/-!
# The sampling coordinator (`sampling_coordinator.rs`)

Callers put their prompts into a channel; one worker drains it into batches, up to a size and a time
limit, sends each batch to the client as one request and deals the answer out again. A batch of one
goes through as it is. The answer to a larger one is a JSON array whose entries name their task by
an index. JSON text is parsed outside (`serde_json`), so the parser is a parameter.
-/

namespace Solo

/-- A parsed JSON value; numbers that are no integers carry nothing that is read here. -/
inductive Json
  | null
  | bool (b : Bool)
  | int (n : Int)
  | float
  | str (s : String)
  | arr (values : List Json)
  | obj (fields : List (String × Json))

namespace Json

def get (key : String) : Json → Option Json
  | .obj fields => fields.lookup key
  | _ => none

def asStr : Json → Option String
  | .str s => some s
  | _ => none

def asI64 : Json → Option Int
  | .int n => if -2 ^ 63 ≤ n ∧ n < 2 ^ 63 then some n else none
  | _ => none

def asArray : Json → Option (List Json)
  | .arr values => some values
  | _ => none

end Json

/-- `i as usize` -/
def i64AsUsize (i : Int) : ℕ := (i % 2 ^ 64).toNat

inductive SamplingRole
  | user | assistant
  deriving DecidableEq

inductive SamplingContent
  | text (s : String)
  | other

structure CreateMessageResult where
  role : SamplingRole
  content : List SamplingContent
  model : String

/-- An error of the client, with its display text, or one of the coordinator. -/
inductive SamplingError
  | client (display : String)
  | internalError (message : String)

def SamplingError.display : SamplingError → String
  | .client display => display
  | .internalError message => message

abbrev SamplingReply := Except SamplingError CreateMessageResult

/-- Where `needle` first occurs: what stands before and what after it. -/
def splitAtText (needle : List Char) : List Char → Option (List Char × List Char)
  | [] => if needle.isEmpty then some ([], []) else none
  | c :: cs =>
    if needle.isPrefixOf (c :: cs) then some ([], (c :: cs).drop needle.length)
    else (splitAtText needle cs).map fun p => (c :: p.1, p.2)

def extractFencedJson (text : String) : Option String :=
  ((splitAtText "```json".toList text.toList).bind fun p => splitAtText "```".toList p.2).map
    fun p =>
    String.ofList (Text.trimList p.1)

/-- The text blocks, one below the other. -/
def joinTexts (out : String) : List SamplingContent → String
  | [] => out
  | .text t :: rest => joinTexts ((if out.isEmpty then out else out ++ "\n") ++ t) rest
  | .other :: rest => joinTexts out rest

def extractTextFromResult (r : CreateMessageResult) : Except String String :=
  if r.role ≠ .assistant then .error "response role was not Assistant"
  else
    let out := joinTexts "" r.content
    if out.isEmpty then .error "no text content blocks" else .ok out

def makeAssistantResult (text model : String) : CreateMessageResult :=
  ⟨.assistant, [.text text], model⟩

section
variable (parse : String → Except String Json)

/-- The array of entries in a coalesced answer, which may stand in a fenced block. -/
def responseArray (rendered : CreateMessageResult) : Except String (List Json) := do
  let text ← extractTextFromResult rendered
  let parsed ← match parse text with
    | .ok v => .ok v
    | .error e =>
      match extractFencedJson text with
      | some inner => (parse inner).mapError fun fe => s!"fenced parse: {fe}"
      | none => .error s!"top-level JSON parse: {e}"
  match parsed.asArray with
  | some values => .ok values
  | none => .error "response root is not a JSON array"

/-- The first entry with this index. -/
def taskEntry (entries : List Json) (idx : ℕ) : Option Json :=
  entries.find? fun e => ((e.get "task_index").bind Json.asI64).any fun i => i64AsUsize i = idx

def demuxTask (entries : List Json) (model : String) (idx : ℕ) : SamplingReply :=
  match taskEntry entries idx with
  | some e => .ok (makeAssistantResult (((e.get "response").bind Json.asStr).getD "") model)
  | none => .error (.internalError s!"sampling coordinator: response missing task_index {idx}")

/-- `demux_coalesced` for a batch of `n`. -/
def demuxCoalesced (rendered : CreateMessageResult) (n : ℕ) : Except String (List SamplingReply) :=
  (responseArray parse rendered).map fun entries =>
    (List.range n).map (demuxTask entries rendered.model)

/-- The replies that `flush_batch` sends to a batch of `n`, given the client's answer. -/
def flushBatch (n : ℕ) (result : SamplingReply) : List SamplingReply :=
  if n = 0 then []
  else if n = 1 then [result]
  else
    match result with
    | .error e =>
      List.replicate n
        (.error (.internalError s!"sampling coordinator: coalesced RPC failed: {e.display}"))
    | .ok rendered =>
      match demuxCoalesced parse rendered n with
      | .ok perTask => perTask
      | .error e =>
        List.replicate n
          (.error (.internalError
            s!"sampling coordinator: failed to parse coalesced response: {e}"))

end

/-- `max_batch`, at least 1. The channel holds twice as many and 16, which its constructor
bounds. -/
structure CoalesceSettings where
  maxBatch : ℕ
  capacity : max maxBatch 1 * 2 + 16 < 2 ^ 61

/-- A caller's prompt, with the number of its reply channel. -/
structure Submission (P : Type) where
  id : ℕ
  params : P

inductive WorkerPhase (P : Type)
  | idle
  | collecting (buffer : List (Submission P))
  /-- The client has the request; `last` after the channel was closed. -/
  | calling (batch : List (Submission P)) (last : Bool)
  | gone

structure Coordinator (P : Type) where
  queue : List (Submission P)
  closed : Bool
  phase : WorkerPhase P
  submitted : ℕ
  replies : List (ℕ × SamplingReply)

inductive SamplingEvent (P : Type)
  | submit (params : P)
  | recv
  | timeout
  | respond (result : SamplingReply)
  /-- The last sender is dropped. -/
  | close
  /-- `shutdown` aborts the worker. -/
  | abort

variable {P : Type}

def WorkerPhase.batch : WorkerPhase P → List (Submission P)
  | .collecting buffer => buffer
  | .calling batch _ => batch
  | .idle | .gone => []

namespace Coordinator

def new : Coordinator P := ⟨[], false, .idle, 0, []⟩

/-- The submissions without a reply. -/
def pending (s : Coordinator P) : List (Submission P) := s.phase.batch ++ s.queue

/-- The worker goes on to collect while the batch is small enough. -/
def collect (cfg : CoalesceSettings) (buffer : List (Submission P)) : WorkerPhase P :=
  if buffer.length < max cfg.maxBatch 1 then .collecting buffer else .calling buffer false

def step (parse : String → Except String Json) (cfg : CoalesceSettings) (s : Coordinator P) :
    SamplingEvent P → Coordinator P
  | .submit params =>
    match s.phase with
    | .gone =>
      { s with
        submitted := s.submitted + 1
        replies := s.replies ++
          [(s.submitted, .error (.internalError "sampling coordinator worker is gone (channel closed)"))] }
    | _ =>
      if s.closed then s
      else { s with queue := s.queue ++ [⟨s.submitted, params⟩], submitted := s.submitted + 1 }
  | .recv =>
    match s.phase, s.queue with
    | .idle, x :: rest => { s with queue := rest, phase := collect cfg [x] }
    | .idle, [] => if s.closed then { s with phase := .gone } else s
    | .collecting buffer, x :: rest =>
      { s with queue := rest, phase := collect cfg (buffer ++ [x]) }
    | .collecting buffer, [] => if s.closed then { s with phase := .calling buffer true } else s
    | _, _ => s
  | .timeout =>
    match s.phase with
    | .collecting buffer => { s with phase := .calling buffer false }
    | _ => s
  | .respond result =>
    match s.phase with
    | .calling batch last =>
      { s with
        phase := if last then .gone else .idle
        replies := s.replies ++ (batch.map (·.id)).zip (flushBatch parse batch.length result) }
    | _ => s
  | .close => { s with closed := true }
  | .abort =>
    { s with
      queue := []
      phase := .gone
      replies := s.replies ++ s.pending.map fun x =>
        (x.id, .error (.internalError "sampling coordinator worker dropped reply channel")) }

end Coordinator

end Solo
