import Solo.Lib.Run
import Solo.Sampling.Coordinator

/-!
# Every caller gets its own answer, unless an entry has no response

Submissions keep their order through the channel, the batches and the replies, so that each has one
reply once nothing is pending. `demux_coalesced` takes the first entry with a task's index; when
that entry has no string under `response` the task is answered with an empty text instead of an
error (`noResponse_not_answered`). `coordinator_answers`: this is the only way in which a batch is
answered wrong.
-/

namespace Solo

/-- An entry of the response for task `i`, with this text. -/
def WellFormedEntry (entries : List Json) (i : ℕ) (text : String) : Prop :=
  ∃ e ∈ entries, e.get "task_index" = some (.int i) ∧ e.get "response" = some (.str text)

section Demux

variable {parse : String → Except String Json} {entries : List Json} {i n : ℕ} {e : Json}
  {text model : String}

theorem asI64_eq_some {j : Json} {k : Int} : j.asI64 = some k ↔ j = .int k ∧ -2 ^ 63 ≤ k ∧
    k < 2 ^ 63 := by
  unfold Json.asI64
  constructor
  · intro h
    split at h
    · split at h
      · next hk =>
        obtain rfl := Option.some.inj h
        exact ⟨rfl, hk⟩
      · cases h
    · cases h
  · rintro ⟨rfl, hk⟩
    simp only [if_pos hk]

theorem asStr_eq_some {j : Json} : j.asStr = some text ↔ j = .str text := by
  cases j <;> simp [Json.asStr]

/-- Read as a `usize`, a negative index is no index of a batch. -/
theorem i64AsUsize_eq {k : Int} (hlo : -2 ^ 63 ≤ k) (hhi : k < 2 ^ 63) (hi : i < 2 ^ 63)
    (h : i64AsUsize k = i) : k = i := by
  unfold i64AsUsize at h
  omega

theorem taskEntry_eq_some (hi : i < 2 ^ 63) (h : taskEntry entries i = some e) :
    e ∈ entries ∧ e.get "task_index" = some (.int i) := by
  refine ⟨List.mem_of_find?_eq_some h, ?_⟩
  have hp := List.find?_some h
  obtain ⟨k, hk, hki⟩ := (Option.any_eq_true _ _).1 hp
  obtain ⟨j, hj, hjk⟩ := Option.bind_eq_some_iff.1 hk
  obtain ⟨rfl, hlo, hhi⟩ := asI64_eq_some.1 hjk
  rw [hj, i64AsUsize_eq hlo hhi hi (of_decide_eq_true hki)]

/-- What is promised of the replies to a batch of `n`. -/
structure Answered (parse : String → Except String Json) (n : ℕ) (result : SamplingReply)
    (replies : List SamplingReply) : Prop where
  length : replies.length = n
  single : n = 1 → replies = [result]
  failed : 2 ≤ n →
    (∀ rendered, result = .ok rendered → ∀ entries, responseArray parse rendered ≠ .ok entries) →
    ∀ r ∈ replies, ∃ e, r = .error e
  /-- A reply with a text is the text of an entry for this task. -/
  own : 2 ≤ n → ∀ rendered entries, result = .ok rendered →
    responseArray parse rendered = .ok entries → ∀ i m, replies[i]? = some (.ok m) →
      ∃ text, WellFormedEntry entries i text ∧ m = makeAssistantResult text rendered.model
  missing : 2 ≤ n → ∀ rendered entries, result = .ok rendered →
    responseArray parse rendered = .ok entries →
    ∀ i, i < n → (∀ text, ¬ WellFormedEntry entries i text) → ∃ e, replies[i]? = some (.error e)

/-- The entry that is taken for a task has a response, or another one for the task has the empty
one. -/
def RespondsWithText (parse : String → Except String Json) (n : ℕ) (result : SamplingReply) :
    Prop :=
  2 ≤ n → ∀ rendered entries, result = .ok rendered → responseArray parse rendered = .ok entries →
    ∀ i e, i < n → taskEntry entries i = some e →
      (∃ text, e.get "response" = some (.str text)) ∨ WellFormedEntry entries i ""

theorem length_flushBatch (parse : String → Except String Json) (n : ℕ) (result : SamplingReply) :
    (flushBatch parse n result).length = n := by
  unfold flushBatch
  split
  · next h => exact h.symm
  split
  · next h => exact h.symm
  cases result with
  | error e => exact List.length_replicate
  | ok rendered =>
    dsimp only
    unfold demuxCoalesced
    cases responseArray parse rendered with
    | error e => exact List.length_replicate
    | ok entries => simp [Except.map]

theorem flushBatch_ok {rendered : CreateMessageResult} (hn : 2 ≤ n)
    (h : responseArray parse rendered = .ok entries) :
    flushBatch parse n (.ok rendered) = (List.range n).map (demuxTask entries rendered.model) := by
  unfold flushBatch
  rw [if_neg (by omega), if_neg (by omega)]
  simp only [demuxCoalesced, h, Except.map]

theorem flushBatch_error {result : SamplingReply} (hn : 2 ≤ n)
    (h : ∀ rendered, result = .ok rendered → ∀ entries, responseArray parse rendered ≠
      .ok entries) :
    ∃ e, flushBatch parse n result = List.replicate n (.error e) := by
  unfold flushBatch
  rw [if_neg (by omega), if_neg (by omega)]
  cases result with
  | error e => exact ⟨_, rfl⟩
  | ok rendered =>
    cases hr : responseArray parse rendered with
    | error e =>
      simp only [demuxCoalesced, hr, Except.map]
      exact ⟨_, rfl⟩
    | ok entries => exact absurd hr (h rendered rfl entries)

theorem getElem?_flushBatch {rendered : CreateMessageResult} (hn : 2 ≤ n)
    (h : responseArray parse rendered = .ok entries) :
    (flushBatch parse n (.ok rendered))[i]? = if i <
    n then some (demuxTask entries rendered.model i) else none := by
  rw [flushBatch_ok hn h, List.getElem?_map]
  split
  · next hi => rw [List.getElem?_range hi, Option.map_some]
  · next hi => rw [List.getElem?_eq_none (by simpa using hi), Option.map_none]

theorem makeAssistantResult_inj {text text' : String}
    (h : makeAssistantResult text model = makeAssistantResult text' model) : text = text' := by
  simpa [makeAssistantResult] using h

theorem demuxTask_of_response (he : taskEntry entries i = some e)
    (hr : e.get "response" = some (.str text)) :
    demuxTask entries model i = .ok (makeAssistantResult text model) := by
  simp only [demuxTask, he, hr, Option.bind_some, Json.asStr, Option.getD_some]

theorem demuxTask_of_no_response (he : taskEntry entries i = some e)
    (hr : ∀ text, e.get "response" ≠ some (.str text)) :
    demuxTask entries model i = .ok (makeAssistantResult "" model) := by
  have hnone : (e.get "response").bind Json.asStr = none := by
    refine Option.eq_none_iff_forall_not_mem.2 fun text ht => ?_
    obtain ⟨j, hj, hs⟩ := Option.bind_eq_some_iff.1 ht
    exact hr text (hj.trans (congrArg some (asStr_eq_some.1 hs)))
  simp only [demuxTask, he, hnone, Option.getD_none]

theorem demuxTask_of_missing (model : String) (h : taskEntry entries i = none) :
    ∃ err, demuxTask entries model i = .error err := by
  simp only [demuxTask, h]
  exact ⟨_, rfl⟩

/-- A batch is answered right exactly when the entries that are taken have responses. -/
theorem answered_flushBatch (hn : n < 2 ^ 63) (result : SamplingReply) :
    Answered parse n result (flushBatch parse n result) ↔ RespondsWithText parse n result := by
  constructor
  · intro h h2 rendered entries hok hr i e hi he
    by_cases hresp : ∃ text, e.get "response" = some (.str text)
    · exact .inl hresp
    · refine .inr ?_
      have hreply :
          (flushBatch parse n result)[i]? = some (.ok (makeAssistantResult "" rendered.model)) := by
        rw [hok, getElem?_flushBatch h2 hr, if_pos hi,
          demuxTask_of_no_response he (not_exists.1 hresp)]
      obtain ⟨text, hw, heq⟩ := h.own h2 rendered entries hok hr i _ hreply
      rwa [makeAssistantResult_inj heq]
  · intro h
    constructor
    case length => exact length_flushBatch parse n result
    case single =>
      rintro rfl
      rfl
    case failed =>
      intro h2 hfail r hr
      obtain ⟨e, he⟩ := flushBatch_error h2 hfail
      rw [he] at hr
      exact ⟨e, List.eq_of_mem_replicate hr⟩
    case own =>
      rintro h2 rendered entries rfl hr i m hm
      rw [getElem?_flushBatch h2 hr] at hm
      split at hm
      · next hi =>
        have hm := Option.some.inj hm
        cases he : taskEntry entries i with
        | none =>
          obtain ⟨err, herr⟩ := demuxTask_of_missing rendered.model he
          rw [herr] at hm
          cases hm
        | some e =>
          obtain ⟨hmem, hindex⟩ := taskEntry_eq_some (by omega) he
          by_cases hresp : ∃ text, e.get "response" = some (.str text)
          · obtain ⟨text, ht⟩ := hresp
            rw [demuxTask_of_response he ht] at hm
            exact ⟨text, ⟨e, hmem, hindex, ht⟩, (Except.ok.inj hm).symm⟩
          · rw [demuxTask_of_no_response he (not_exists.1 hresp)] at hm
            exact ⟨"", (h h2 rendered entries rfl hr i e hi he).resolve_left hresp,
              (Except.ok.inj hm).symm⟩
      · cases hm
    case missing =>
      rintro h2 rendered entries rfl hr i hi hnone
      rw [getElem?_flushBatch h2 hr, if_pos hi]
      cases he : taskEntry entries i with
      | none =>
        obtain ⟨err, herr⟩ := demuxTask_of_missing rendered.model he
        exact ⟨err, congrArg some herr⟩
      | some e =>
        obtain ⟨hmem, hindex⟩ := taskEntry_eq_some (by omega) he
        rcases h h2 rendered entries rfl hr i e hi he with ⟨text, ht⟩ | hw
        · exact absurd ⟨e, hmem, hindex, ht⟩ (hnone text)
        · exact absurd hw (hnone "")

end Demux

/-- What the worker and the client do by themselves. -/
def SamplingEvent.Work {P : Type} : SamplingEvent P → Prop
  | .recv | .timeout | .respond _ => True
  | _ => False

namespace Coordinator

variable {P : Type} {parse : String → Except String Json} {cfg : CoalesceSettings}
  {s : Coordinator P}

/-! ### Runs -/

/-- Submissions are answered in their order, and batches are not too large. -/
structure Inv (cfg : CoalesceSettings) (s : Coordinator P) : Prop where
  order : s.replies.map Prod.fst ++ s.pending.map (·.id) = List.range s.submitted
  batch : s.phase.batch.length ≤ max cfg.maxBatch 1
  collecting : ∀ buffer, s.phase = .collecting buffer → buffer.length < max cfg.maxBatch 1
  /-- The worker stops when the channel is closed and nothing is left in it. -/
  last : ∀ batch, s.phase = .calling batch true → s.closed = true ∧ s.queue = []
  gone : s.phase = .gone → s.queue = []

theorem inv_new : Inv cfg (new : Coordinator P) where
  order := rfl
  batch := Nat.zero_le _
  collecting := by rintro buffer ⟨⟩
  last := by rintro batch ⟨⟩
  gone := by rintro ⟨⟩

theorem collect_batch (buffer : List (Submission P)) : (collect cfg buffer).batch = buffer := by
  unfold collect
  split <;> rfl

theorem collect_last (buffer batch : List (Submission P)) :
    collect cfg buffer ≠ .calling batch true := by
  unfold collect
  split <;> simp

theorem collect_gone (buffer : List (Submission P)) : collect cfg buffer ≠ .gone := by
  unfold collect
  split <;> simp

theorem collect_collecting {buffer buffer' : List (Submission P)}
    (h : collect cfg buffer = .collecting buffer') : buffer'.length < max cfg.maxBatch 1 := by
  unfold collect at h
  split at h
  · next hlt =>
    obtain rfl := WorkerPhase.collecting.inj h
    exact hlt
  · cases h

/-- One more submission is received. -/
theorem Inv.recv (h : Inv cfg s) {x : Submission P} {rest : List (Submission P)}
    (hq : s.queue = x :: rest) (hlt : s.phase.batch.length < max cfg.maxBatch 1) :
    Inv cfg { s with queue := rest, phase := collect cfg (s.phase.batch ++ [x]) } where
  order := by
    have horder := h.order
    rw [pending, hq] at horder
    rw [pending, collect_batch, List.append_assoc]
    exact horder
  batch := by
    rw [collect_batch, List.length_append, List.length_singleton]
    exact hlt
  collecting := fun _ hc => collect_collecting hc
  last := fun _ hc => absurd hc (collect_last _ _)
  gone := fun hc => absurd hc (collect_gone _)

theorem Inv.respond (h : Inv cfg s) {batch : List (Submission P)} {last : Bool}
    (hp : s.phase = .calling batch last)
    (result : SamplingReply) : Inv cfg (s.step parse cfg (.respond result)) := by
  simp only [step, hp]
  constructor
  case order =>
    have horder := h.order
    rw [pending, hp] at horder
    have hids : ((batch.map (·.id)).zip (flushBatch parse batch.length result)).map Prod.fst =
        batch.map (·.id) :=
      List.map_fst_zip (by simp [length_flushBatch])
    have hidle : (if last = true then WorkerPhase.gone else .idle : WorkerPhase P).batch = [] := by
      split <;> rfl
    rw [pending, hidle, List.map_append, hids, List.append_assoc, List.nil_append,
      ← List.map_append]
    exact horder
  case batch => split <;> exact Nat.zero_le _
  case collecting => intro buffer hc; split at hc <;> cases hc
  case last => intro batch' hc; split at hc <;> cases hc
  case gone =>
    intro hc
    split at hc
    · next hl => exact (h.last batch (hl ▸ hp)).2
    · cases hc

theorem Inv.step (parse : String → Except String Json) (h : Inv cfg s) (ev : SamplingEvent P) :
    Inv cfg (s.step parse cfg ev) := by
  cases ev with
  | submit params =>
    simp only [Coordinator.step]
    have hsend (hg : s.phase ≠ .gone) (hc : ¬ s.closed = true) :
        Inv cfg { s with queue := s.queue ++ [⟨s.submitted, params⟩], submitted := s.submitted + 1 } := by
      refine ⟨?_, h.batch, h.collecting, fun batch hl => absurd (h.last batch hl).1 hc,
        fun hg' => absurd hg' hg⟩
      have horder := h.order
      rw [pending] at horder ⊢
      rw [List.range_succ, ← horder]
      simp
    split
    · next hg =>
      refine ⟨?_, h.batch, h.collecting, h.last, h.gone⟩
      have horder := h.order
      rw [pending, hg, h.gone hg] at horder
      rw [pending, hg, h.gone hg, List.range_succ, ← horder]
      simp [WorkerPhase.batch]
    · next hg =>
      split
      · exact h
      · next hc => exact hsend hg hc
  | recv =>
    simp only [Coordinator.step]
    split
    · next x rest hp hq =>
      have hrecv :=
        h.recv hq (by rw [hp]; exact Nat.lt_of_lt_of_le Nat.zero_lt_one (Nat.le_max_right _ _))
      rwa [hp] at hrecv
    · next hp hq =>
      split
      · have horder := h.order
        rw [pending, hp] at horder
        refine ⟨?_, Nat.zero_le _, by rintro _ ⟨⟩, by rintro _ ⟨⟩, fun _ => hq⟩
        exact horder
      · exact h
    · next buffer x rest hp hq =>
      have hrecv := h.recv hq (by rw [hp]; exact h.collecting buffer hp)
      rwa [hp] at hrecv
    · next buffer hp hq =>
      split
      · next hc =>
        have horder := h.order
        have hbatch := h.batch
        rw [pending, hp] at horder
        rw [hp] at hbatch
        exact ⟨horder, hbatch, by rintro _ ⟨⟩, fun _ _ => ⟨hc, hq⟩, by rintro ⟨⟩⟩
      · exact h
    · exact h
  | timeout =>
    simp only [Coordinator.step]
    split
    · next buffer hp =>
      have horder := h.order
      have hbatch := h.batch
      rw [pending, hp] at horder
      rw [hp] at hbatch
      exact ⟨horder, hbatch, by rintro _ ⟨⟩, by rintro _ ⟨⟩, by rintro ⟨⟩⟩
    · exact h
  | respond result =>
    cases hp : s.phase with
    | calling batch last => exact h.respond hp result
    | idle | collecting _ | gone =>
      simp only [Coordinator.step, hp]
      exact h
  | close =>
    exact ⟨h.order, h.batch, h.collecting, fun batch hl => ⟨rfl, (h.last batch hl).2⟩, h.gone⟩
  | abort =>
    refine ⟨?_, Nat.zero_le _, by rintro _ ⟨⟩, by rintro _ ⟨⟩, fun _ => rfl⟩
    have horder := h.order
    simp only [Coordinator.step, pending] at horder ⊢
    rw [← horder]
    simp [WorkerPhase.batch, Function.comp_def]

/-! ### The worker answers whatever is pending -/

theorem drain_calling (parse : String → Except String Json) (h : Inv cfg s)
    {batch : List (Submission P)} {last : Bool} (hp : s.phase = .calling batch last) :
    (s.step parse cfg (.respond (.error (.client "")))).queue = s.queue ∧
      ((s.step parse cfg (.respond (.error (.client "")))).phase = .idle ∨
        (s.step parse cfg (.respond (.error (.client "")))).pending = []) := by
  have hphase : (s.step parse cfg (.respond (.error (.client "")))).phase =
      if last then .gone else .idle := by
    simp only [step, hp]
  have hqueue : (s.step parse cfg (.respond (.error (.client "")))).queue = s.queue := by
    simp only [step, hp]
  refine ⟨hqueue, ?_⟩
  cases last with
  | false => exact .inl hphase
  | true =>
    rw [pending, hphase, hqueue, (h.last batch hp).2]
    exact .inr rfl

/-- The batch goes to the client and is answered. -/
theorem drain_batch (parse : String → Except String Json) (h : Inv cfg s) (hp : s.phase ≠ .idle)
    (hg : s.phase ≠ .gone) :
    ∃ es : List (SamplingEvent P), (∀ e ∈ es, e.Work) ∧ (Run.run (step parse cfg) s es).queue =
    s.queue ∧
      ((Run.run (step parse cfg) s es).phase = .idle ∨ (Run.run (step parse cfg) s es).pending =
        []) := by
  cases hphase : s.phase with
  | idle => exact absurd hphase hp
  | gone => exact absurd hphase hg
  | calling batch last =>
    exact ⟨[.respond
      (.error (.client ""))], by simp [SamplingEvent.Work], drain_calling parse h hphase⟩
  | collecting buffer =>
    have htimeout : s.step parse cfg .timeout = { s with phase := .calling buffer false } := by
      simp only [step, hphase]
    have hinv : Inv cfg { s with phase := .calling buffer false } :=
      htimeout ▸ h.step parse .timeout
    have hcall := drain_calling parse hinv rfl
    refine ⟨[.timeout, .respond (.error (.client ""))], by simp [SamplingEvent.Work], ?_⟩
    rw [Run.run_cons, htimeout]
    exact hcall

/-- From an idle worker, by induction on what is in the channel. -/
theorem drain_idle (parse : String → Except String Json) (queue : List (Submission P)) :
    ∀ s : Coordinator P, Inv cfg s → s.phase = .idle → s.queue = queue →
      ∃ es : List (SamplingEvent P), (∀ e ∈ es, e.Work) ∧ (Run.run (step parse cfg) s es).pending =
      [] := by
  induction queue with
  | nil =>
    intro s _ hp hq
    refine ⟨[], by simp, ?_⟩
    rw [Run.run_nil, pending, hp, hq]
    rfl
  | cons x rest ih =>
    intro s h hp hq
    have hrecv : s.step parse cfg .recv = { s with queue := rest, phase := collect cfg [x] } := by
      simp only [step, hp, hq]
    have hidle : collect cfg [x] ≠ .idle := by
      unfold collect
      split <;> simp
    have hinv : Inv cfg (s.step parse cfg .recv) := h.step parse .recv
    obtain ⟨es, hes, hqueue, hend⟩ := drain_batch parse hinv (by rw [hrecv]; exact hidle)
      (by rw [hrecv]; exact collect_gone _)
    have hwork : ∀ e ∈ SamplingEvent.recv :: es, e.Work := List.forall_mem_cons.2 ⟨trivial, hes⟩
    rcases hend with hend | hend
    · have hlater : Inv cfg (Run.run (step parse cfg) (s.step parse cfg .recv) es) :=
        Run.invariant (Inv cfg) (fun s e h => h.step parse e) hinv
      obtain ⟨es', hes', hnone⟩ := ih _ hlater hend (by rw [hqueue, hrecv])
      refine ⟨SamplingEvent.recv :: es ++ es', fun e he => ?_, ?_⟩
      · rcases List.mem_append.1 he with he | he
        · exact hwork e he
        · exact hes' e he
      · rw [Run.run_append]
        exact hnone
    · exact ⟨SamplingEvent.recv :: es, hwork, hend⟩

theorem drain (parse : String → Except String Json) (h : Inv cfg s) :
    ∃ es : List (SamplingEvent P), (∀ e ∈ es, e.Work) ∧ (Run.run (step parse cfg) s es).pending =
    [] := by
  by_cases hp : s.phase = .idle
  · exact drain_idle parse s.queue s h hp rfl
  by_cases hg : s.phase = .gone
  · refine ⟨[], by simp, ?_⟩
    rw [Run.run_nil, pending, hg, h.gone hg]
    rfl
  obtain ⟨es, hes, -, hend⟩ := drain_batch parse h hp hg
  rcases hend with hend | hend
  · have hlater : Inv cfg (Run.run (step parse cfg) s es) :=
      Run.invariant (Inv cfg) (fun s e h => h.step parse e) h
    obtain ⟨es', hes', hnone⟩ := drain_idle parse _ _ hlater hend rfl
    refine ⟨es ++ es', fun e he => ?_, ?_⟩
    · rcases List.mem_append.1 he with he | he
      · exact hes e he
      · exact hes' e he
    · rw [Run.run_append]
      exact hnone
  · exact ⟨es, hes, hend⟩

/-! ### Every answer of the client -/

/-- When the client answers a batch, each member gets its own reply. -/
def AnswersBatch (parse : String → Except String Json) (cfg : CoalesceSettings) (s : Coordinator P)
    (ev : SamplingEvent P) : Prop :=
  ∀ batch last result, s.phase = .calling batch last → ev = .respond result →
    ∃ replies, (s.step parse cfg ev).replies = s.replies ++ (batch.map (·.id)).zip replies ∧
      Answered parse batch.length result replies

/-- The client's answer to a batch has a response in every entry that is taken for a member. -/
def ClientResponds (parse : String → Except String Json) (s : Coordinator P)
    (ev : SamplingEvent P) : Prop :=
  ∀ batch last result, s.phase = .calling batch last → ev = .respond result →
    RespondsWithText parse batch.length result

theorem answersBatch_iff (h : Inv cfg s) (ev : SamplingEvent P) :
    AnswersBatch parse cfg s ev ↔ ClientResponds parse s ev := by
  have hsize {batch : List (Submission P)} {last : Bool} (hp : s.phase = .calling batch last) :
      batch.length < 2 ^ 63 := by
    have hbatch := h.batch
    rw [hp] at hbatch
    have := cfg.capacity
    exact lt_of_le_of_lt hbatch (by omega)
  have hstep {batch : List (Submission P)} {last : Bool} (hp : s.phase = .calling batch last)
      (result : SamplingReply) : (s.step parse cfg (.respond result)).replies =
        s.replies ++ (batch.map (·.id)).zip (flushBatch parse batch.length result) := by
    simp only [step, hp]
  constructor
  · rintro ha batch last result hp rfl
    obtain ⟨replies, hreplies, hanswered⟩ := ha batch last result hp rfl
    rw [hstep hp] at hreplies
    have hzip := congrArg (List.map Prod.snd) (List.append_cancel_left hreplies)
    rw [List.map_snd_zip (by simp [length_flushBatch]),
      List.map_snd_zip (by simp [hanswered.length])] at hzip
    rw [← answered_flushBatch (hsize hp), hzip]
    exact hanswered
  · rintro hc batch last result hp rfl
    exact ⟨_, hstep hp result,
      (answered_flushBatch (hsize hp) result).2 (hc batch last result hp rfl)⟩

end Coordinator

open Coordinator

/-- Each submission has one reply or is pending, in the order of the submissions; the worker and the
client get to the end of what is pending; and every batch is answered right exactly when the client
responds to it. -/
theorem coordinator_answers {P : Type} (parse : String → Except String Json)
    (cfg : CoalesceSettings) (es : List (SamplingEvent P)) :
    (Run.run (step parse cfg) new es).replies.map Prod.fst ++
    (Run.run (step parse cfg) new es).pending.map (·.id) =
      List.range (Run.run (step parse cfg) new es).submitted ∧
    (∃ work : List (SamplingEvent P), (∀ e ∈ work, e.Work) ∧
      (Run.run (step parse cfg) new (es ++ work)).pending = []) ∧
    (Run.Guarded (step parse cfg) (AnswersBatch parse cfg) new es ↔
      Run.Guarded (step parse cfg) (ClientResponds parse) new es) := by
  have hinv : Inv cfg (Run.run (step parse cfg) new es) :=
    Run.invariant (Inv cfg) (fun s e h => h.step parse e) inv_new
  refine ⟨hinv.order, ?_, ?_⟩
  · obtain ⟨work, hwork, hnone⟩ := drain parse hinv
    exact ⟨work, hwork, by rw [Run.run_append]; exact hnone⟩
  · exact Run.guarded_congr (Inv cfg) (fun s e h => h.step parse e)
      (fun s e h => answersBatch_iff h e) inv_new

namespace NoResponse

/-- Task 0 has an entry without a response. -/
def entries : List Json :=
  [.obj [("task_index", .int 0)], .obj [("task_index", .int 1), ("response", .str "b")]]

def parse (_ : String) : Except String Json := .ok (.arr entries)

def cfg : CoalesceSettings := ⟨2, by omega⟩

def rendered : CreateMessageResult :=
  makeAssistantResult "[\x7b\"task_index\": 0\x7d, \x7b\"task_index\": 1, \"response\": \"b\"\x7d]"
    "m"

def events : List (SamplingEvent Unit) :=
  [.submit (), .submit (), .recv, .recv, .respond (.ok rendered)]

end NoResponse

theorem noResponse_not_answered :
    ¬ Run.Guarded (step NoResponse.parse NoResponse.cfg)
    (AnswersBatch NoResponse.parse NoResponse.cfg) new
      NoResponse.events := by
  rintro ⟨-, -, -, -, h, -⟩
  have hinv : Coordinator.Inv NoResponse.cfg
      (Run.run (step NoResponse.parse NoResponse.cfg) new (NoResponse.events.take 4)) :=
    Run.invariant (Coordinator.Inv NoResponse.cfg) (fun s e h => h.step NoResponse.parse e) inv_new
  have hresponds := (answersBatch_iff hinv (.respond (.ok NoResponse.rendered))).1 h
  rcases hresponds [⟨0, ()⟩, ⟨1, ()⟩] false (.ok NoResponse.rendered) rfl rfl (by decide)
    NoResponse.rendered
    NoResponse.entries rfl rfl 0 (.obj [("task_index", .int 0)]) (by decide)
    rfl with ⟨text, ht⟩ | ⟨e, he, hindex, hresp⟩
  · cases ht
  · rcases List.mem_cons.1 he with rfl | he
    · cases hresp
    · obtain rfl := List.mem_singleton.1 he
      cases hindex

end Solo
