import Solo.Lib.JsonGrammar
import Solo.Lib.Split
import Solo.Lib.Utf8

/-!
# Responses of the memory server (`agent_hook.rs`, `read_rpc_response`)

The response is read in chunks, and what has been read so far is decoded after each of them. A chunk
may end anywhere, so this also decodes texts that are cut: in a character, in a line, between the
two halves of a line end. None of these has an answer that the whole response does not have.
-/

namespace Solo

open Json Text Replace Utf8

namespace Hook

def responseLimit : ℕ := 512 * 1024

inductive RpcError where
  | exceedsLimit
  | requestFailed
  | incomplete
  deriving DecidableEq

section

variable {F : Type} (ofLexeme : List Char → Option (Number F))

/-- `value.get("id") == Some(&json!(id))`. -/
def hasId (id : ℕ) (value : Json (Number F)) : Bool :=
  match value.get "id" with
  | some (.num (.posInt n)) => n = id
  | _ => false

/-- `serde_json::from_slice`. -/
def fromSlice (bytes : List ℕ) : Option (Json (Number F)) := (fromUtf8 bytes).bind (parse ofLexeme)

/-- What a line adds to the data of its event. -/
def dataLine (line : List Char) : Option (List Char) :=
  (stripPrefix? line "data:").map (List.dropWhile isWhitespace)

/-- The data lines of an event, joined. -/
def eventData (lines : List (List Char)) : List Char :=
  ['\n'].intercalate (lines.filterMap dataLine)

/-- The value of an event, if it is the answer. -/
def answer (id : ℕ) (lines : List (List Char)) : Option (Json (Number F)) :=
  (parse ofLexeme (eventData lines)).filter (hasId id)

def decodeRpc (bytes : List ℕ) (id : ℕ) (sse : Bool) : Option (Json (Number F)) :=
  if !sse then (fromSlice ofLexeme bytes).filter (hasId id)
  else do
    let text ← fromUtf8 bytes
    (split blankLine (replace crlf ['\n'] text)).findSome? fun event =>
    answer ofLexeme id (lines event)

/-- What an answer is returned as. -/
def rpcResult : Option (Json (Number F)) → Except RpcError (Json (Number F))
  | none => .error .incomplete
  | some value => if (value.get "error").isSome then .error .requestFailed else .ok value

/-- The loop over the chunks that are still to come, `body` what has been read. -/
def readChunks (sse : Bool) (id : ℕ) : List ℕ → List (List ℕ) → Except RpcError (Json (Number F))
  | _, [] => .error .incomplete
  | body, chunk :: chunks =>
    if body.length + chunk.length > responseLimit then .error .exceedsLimit
    else
      match decodeRpc ofLexeme (body ++ chunk) id sse with
      | some value => rpcResult (some value)
      | none => readChunks sse id (body ++ chunk) chunks

def readRpcResponse (sse : Bool) (id : ℕ) (chunks : List (List ℕ)) :
    Except RpcError (Json (Number F)) :=
  readChunks ofLexeme sse id [] chunks

/-! ### Bodies -/

def hasData (event : List (List Char)) : Bool := event.filterMap dataLine ≠ []

/-- The body of a response, whether it is a stream of events, and its values: that of the object, or
those of the events with data. Lines have ends of either kind, and empty lines end events. -/
inductive RpcBody : Bool → List Char → List (Json (Number F)) → Prop
  | object {text : List Char} {fields : Fields (Number F)} (h :
    parse ofLexeme text = some (.obj fields)) :
      RpcBody false text [.obj fields]
  | events {ls : List (List Char × Bool)} {last : List Char} {values :
    List (Json (Number F))} (hls : ∀ x ∈ ls, OneLine x.1)
      (hlast : OneLine last)
      (hvalues : ((paragraphs [] (ls.map Prod.fst ++ [last])).filter hasData).map
        (fun event => parse ofLexeme (eventData event)) = values.map some) :
      RpcBody true (withEnds ls last) values

end

/-! ### The data of a cut event -/

variable {F : Type} {ofLexeme : List Char → Option (Number F)}

theorem isNum_of_hasId {id : ℕ} {v : Json (Number F)} (h : hasId id v = true) :
    v.isNum = false := by
  cases v with
  | num n => cases h
  | _ => rfl

theorem dataLine_nil : dataLine [] = none := rfl

theorem filterMap_dataLine_blank (a b : List (List Char)) :
    (a ++ [] :: b).filterMap dataLine = (a ++ b).filterMap dataLine := by
  rw [List.filterMap_append, List.filterMap_append, List.filterMap_cons_none dataLine_nil]

/-- A line that is cut adds less to the data, or nothing. -/
theorem dataLine_of_prefix {q l y : List Char} (hq : q <+: l) (hy : dataLine q = some y) :
    ∃ z, dataLine l = some z ∧ y <+: z := by
  obtain ⟨r, rfl⟩ := hq
  unfold dataLine stripPrefix? startsWith at hy ⊢
  obtain ⟨d, hd, rfl⟩ := Option.map_eq_some_iff.1 hy
  split_ifs at hd with hpre
  obtain ⟨s, rfl⟩ := List.isPrefixOf_iff_prefix.1 hpre
  obtain rfl := Option.some.inj hd
  have hlong : "data:".toList.isPrefixOf ("data:".toList ++ s ++ r) = true := by
    rw [List.append_assoc]
    exact List.isPrefixOf_iff_prefix.2 (List.prefix_append _ _)
  rw [if_pos hlong, List.append_assoc, List.drop_left, List.drop_left]
  refine ⟨_, rfl, ?_⟩
  rw [List.dropWhile_append]
  split_ifs with hempty
  · rw [List.isEmpty_iff.1 hempty]
    exact List.nil_prefix
  · exact List.prefix_append _ _

/-- The first half of a line end adds itself to the data, or nothing. -/
theorem dataLine_carriageReturn (l : List Char) :
    dataLine (l ++ ['\r']) = dataLine l ∨ ∃ z, dataLine l = some z ∧
    dataLine (l ++ ['\r']) = some (z ++ ['\r']) := by
  have hpre : "data:".toList <+: l ++ ['\r'] ↔ "data:".toList <+: l := by
    rw [List.prefix_concat_iff]
    refine or_iff_right fun heq => ?_
    have hlast := congrArg List.getLast? heq
    rw [List.getLast?_concat] at hlast
    exact absurd hlast (by decide)
  unfold dataLine stripPrefix? startsWith
  by_cases hl : "data:".toList <+: l
  · rw [if_pos (List.isPrefixOf_iff_prefix.2 (hpre.2 hl)), if_pos (List.isPrefixOf_iff_prefix.2 hl)]
    obtain ⟨s, rfl⟩ := hl
    rw [List.append_assoc, List.drop_left, List.drop_left, Option.map_some, Option.map_some,
      List.dropWhile_append]
    by_cases hempty : (s.dropWhile isWhitespace).isEmpty = true
    · rw [if_pos hempty, List.isEmpty_iff.1 hempty]
      exact .inl rfl
    · rw [if_neg hempty]
      exact .inr ⟨_, rfl, rfl⟩
  · rw [if_neg (mt (fun h => hpre.1 (List.isPrefixOf_iff_prefix.1 h)) hl),
      if_neg (mt List.isPrefixOf_iff_prefix.1 hl)]
    exact .inl rfl

theorem intercalate_append_cons (A : List (List Char)) (z : List Char) (B : List (List Char)) :
    ['\n'].intercalate (A ++ z :: B) = A.flatMap (· ++ ['\n']) ++ ['\n'].intercalate (z :: B) := by
  induction A with
  | nil => rfl
  | cons a A ih =>
    cases A with
    | nil => rw [List.singleton_append, List.intercalate_cons_cons, List.flatMap_singleton]
    | cons b A =>
      rw [List.cons_append, List.cons_append, List.intercalate_cons_cons, ← List.cons_append, ih]
      simp only [List.flatMap_cons, List.append_assoc]

theorem intercalate_prefix {y z : List Char} (h : y <+: z) (A B : List (List Char)) :
    ['\n'].intercalate (A ++ [y]) <+: ['\n'].intercalate (A ++ z :: B) := by
  rw [intercalate_append_cons, intercalate_append_cons, List.prefix_append_right_inj,
    List.intercalate_singleton]
  cases B with
  | nil => rwa [List.intercalate_singleton]
  | cons b B =>
    rw [List.intercalate_cons_cons, List.append_assoc]
    exact h.trans (List.prefix_append _ _)

theorem eventData_prefix (A B : List (List Char)) : eventData A <+: eventData (A ++ B) := by
  unfold eventData
  rw [List.filterMap_append]
  rcases List.eq_nil_or_concat (A.filterMap dataLine) with hnil | ⟨A', y, hA⟩
  · rw [hnil]
    exact List.nil_prefix
  · rw [hA, List.concat_eq_append, List.append_assoc, List.singleton_append]
    exact intercalate_prefix List.prefix_rfl _ _

/-- The data of an event that is cut in a line, or after the first half of its end: a beginning of
the data of the event, with at most that first half behind it. -/
theorem eventData_cut {q l : List Char} (hq : q <+: l ∨ q = l ++ ['\r'])
    (acc g : List (List Char)) :
    ∃ d, d <+: eventData (acc ++ l :: g) ∧
    (eventData (acc ++ [q]) = d ∨ eventData (acc ++ [q]) = d ++ ['\r']) := by
  have hdrop {x : List Char} (hx : dataLine x = none) : eventData (acc ++ [x]) = eventData acc := by
    rw [eventData, List.filterMap_append, List.filterMap_cons_none hx, List.filterMap_nil,
      List.append_nil]
    rfl
  have hkeep {x y : List Char} (hx : dataLine x = some y) :
      eventData (acc ++ [x]) = ['\n'].intercalate (acc.filterMap dataLine ++ [y]) := by
    rw [eventData, List.filterMap_append, List.filterMap_cons_some hx, List.filterMap_nil]
  have hline : eventData (acc ++ [l]) <+: eventData (acc ++ l :: g) := by
    have h := eventData_prefix (acc ++ [l]) g
    rwa [List.append_assoc, List.singleton_append] at h
  rcases hq with hq | rfl
  · refine ⟨eventData (acc ++ [q]), ?_, .inl rfl⟩
    cases hy : dataLine q with
    | none =>
      rw [hdrop hy]
      exact eventData_prefix acc (l :: g)
    | some y =>
      obtain ⟨z, hz, hyz⟩ := dataLine_of_prefix hq hy
      refine List.IsPrefix.trans ?_ hline
      rw [hkeep hy, hkeep hz]
      exact intercalate_prefix hyz _ []
  · refine ⟨_, hline, ?_⟩
    rcases dataLine_carriageReturn l with hsame | ⟨z, hz, hcr⟩
    · left
      rw [eventData, eventData, List.filterMap_append, List.filterMap_append, List.filterMap_cons,
        List.filterMap_cons, hsame]
    · right
      rw [hkeep hz, hkeep hcr, intercalate_append_cons, intercalate_append_cons,
        List.intercalate_singleton, List.intercalate_singleton, List.append_assoc]

/-! ### Cut bodies -/

theorem answer_of_cut {id : ℕ} {acc : List (List Char)} {q l : List Char} {v w : Json (Number F)}
    (hq : q <+: l ∨ q = l ++ ['\r']) (g : List (List Char))
    (hv : answer ofLexeme id (acc ++ [q]) = some v)
    (hw : parse ofLexeme (eventData (acc ++ l :: g)) = some w) : v = w := by
  obtain ⟨hparse, hid⟩ := Option.filter_eq_some_iff.1 hv
  obtain ⟨d, ⟨t, ht⟩, hd⟩ := eventData_cut hq acc g
  have hbegin : parse ofLexeme d = some v := by
    rcases hd with hd | hd
    · rwa [hd] at hparse
    · rw [hd] at hparse
      exact parse_of_append_blank (by decide) hparse
  rw [← ht] at hw
  exact parse_append (isNum_of_hasId hid) hbegin hw

/-- An event has no data, or its data are a value. -/
def Whole (ofLexeme : List Char → Option (Number F)) (event : List (List Char)) : Prop :=
  hasData event = true → ∃ w, parse ofLexeme (eventData event) = some w

theorem eventData_of_not_hasData {event : List (List Char)} (h : hasData event = false) :
    eventData event = [] := by
  unfold hasData at h
  rw [eventData, not_not.1 (of_decide_eq_false h)]
  rfl

theorem answer_nil (id : ℕ) : answer ofLexeme id [] = none := rfl

theorem eventData_blank (a b : List (List Char)) :
    eventData (a ++ [] :: b) = eventData (a ++ b) := by
  rw [eventData, eventData, filterMap_dataLine_blank]

theorem answer_blank (id : ℕ) (a b : List (List Char)) :
    answer ofLexeme id (a ++ [] :: b) = answer ofLexeme id (a ++ b) := by
  rw [answer, answer, eventData_blank]

/-- What is found in an event that is cut is the value of the whole event. -/
theorem findSome?_cut {id : ℕ} {K M : List (List Char)} {q l : List Char} {v : Json (Number F)}
    (hq : q <+: l ∨ q = l ++ ['\r']) (acc : List (List Char))
    (hwhole : ∀ event ∈ paragraphs acc (K ++ l :: M), Whole ofLexeme event)
    (hv : (paragraphs acc (K ++ [q])).findSome? (answer ofLexeme id) = some v) :
    (paragraphs acc (K ++ l :: M)).findSome? (answer ofLexeme id) = some v := by
  induction K generalizing acc with
  | nil =>
    have hcut : answer ofLexeme id (acc ++ [q]) = some v := by
      rw [← hv, List.nil_append, paragraphs]
      by_cases hempty : q = []
      · rw [hempty, if_pos rfl, paragraphs, List.findSome?_cons, List.findSome?_singleton,
          answer_nil, answer_blank, List.append_nil]
        cases answer ofLexeme id acc with
        | none => rfl
        | some x => rfl
      · rw [if_neg hempty, paragraphs, List.findSome?_singleton]
    obtain ⟨event, rest, g, hevent, hdata⟩ : ∃ event rest g, paragraphs acc ([] ++ l :: M) =
        event :: rest ∧ eventData event = eventData (acc ++ l :: g) := by
      rw [List.nil_append, paragraphs]
      by_cases hempty : l = []
      · rw [if_pos hempty]
        exact ⟨_, _, [], rfl, by rw [hempty, eventData_blank, List.append_nil]⟩
      · obtain ⟨g, rest, hg⟩ := paragraphs_first (acc ++ [l]) M
        rw [if_neg hempty, hg]
        exact ⟨_, _, g, rfl, by rw [List.append_assoc, List.singleton_append]⟩
    have hfirst : answer ofLexeme id event = some v := by
      obtain ⟨hparse, hid⟩ := Option.filter_eq_some_iff.1 hcut
      have hsome : ∃ w, parse ofLexeme (eventData event) = some w := by
        by_cases hdata' : hasData event = true
        · exact hwhole event (by rw [hevent]; exact List.mem_cons_self) hdata'
        · -- without data the cut event has none either
          exfalso
          rw [Bool.not_eq_true] at hdata'
          obtain ⟨d, hprefix, hd⟩ := eventData_cut hq acc g
          rw [← hdata, eventData_of_not_hasData hdata', List.prefix_nil] at hprefix
          subst hprefix
          rcases hd with hd | hd
          · rw [hd, parse_nil] at hparse
            cases hparse
          · rw [hd] at hparse
            have h : parse ofLexeme [] = some v := parse_of_append_blank (by decide) hparse
            rw [parse_nil] at h
            cases h
      obtain ⟨w, hw⟩ := hsome
      rw [hdata] at hw
      rw [answer, hdata, answer_of_cut hq g hcut hw]
      rw [answer_of_cut hq g hcut hw] at hid
      rw [hw]
      exact Option.filter_some_pos hid
    rw [hevent, List.findSome?_cons, hfirst]
  | cons k K ih =>
    rw [List.cons_append, paragraphs] at hwhole hv ⊢
    by_cases hempty : k = []
    · rw [if_pos hempty] at hwhole hv ⊢
      rw [List.findSome?_cons] at hv ⊢
      cases hacc : answer ofLexeme id acc with
      | some x =>
        rw [hacc] at hv
        exact hv
      | none =>
        rw [hacc] at hv
        exact ih [] (fun event hmem => hwhole event (List.mem_cons_of_mem _ hmem)) hv
    · rw [if_neg hempty] at hwhole hv ⊢
      exact ih _ hwhole hv

theorem findSome?_answer {id : ℕ} {events : List (List (List Char))}
    {values : List (Json (Number F))}
    (h : (events.filter hasData).map (fun event => parse ofLexeme (eventData event)) =
      values.map some) :
    events.findSome? (answer ofLexeme id) = values.find? (hasId id) := by
  induction events generalizing values with
  | nil =>
    obtain rfl := List.map_eq_nil_iff.1 h.symm
    rfl
  | cons event events ih =>
    rw [List.findSome?_cons]
    cases hdata : hasData event with
    | false =>
      rw [List.filter_cons_of_neg (by rw [hdata]; decide)] at h
      rw [answer, eventData_of_not_hasData hdata, parse_nil]
      exact ih h
    | true =>
      rw [List.filter_cons_of_pos hdata, List.map_cons] at h
      cases values with
      | nil => cases h
      | cons v values =>
        obtain ⟨hv, hrest⟩ := List.cons.inj h
        rw [answer, hv, List.find?_cons]
        cases hid : hasId id v with
        | true =>
          rw [Option.filter_some_pos hid]
        | false =>
          rw [Option.filter_some_neg hid]
          exact ih hrest

/-- The whole body is decoded to its first value with the id, and a part of it to that or to
nothing. -/
theorem RpcBody.decode {sse : Bool} {text : List Char} {values : List (Json (Number F))}
    (h : RpcBody ofLexeme sse text values)
    {bytes : List ℕ} (hbytes : fromUtf8 bytes = some text) (id : ℕ) :
    decodeRpc ofLexeme bytes id sse = values.find? (hasId id) ∧ ∀ part, part <+: bytes → ∀ v,
      decodeRpc ofLexeme part id sse = some v → values.find? (hasId id) = some v := by
  cases h with
  | @object text fields hparse =>
    have hwhole : decodeRpc ofLexeme bytes id false = [Json.obj fields].find? (hasId id) := by
      rw [decodeRpc, if_pos (by decide), fromSlice, hbytes, Option.bind_some, hparse,
        List.find?_singleton]
      cases hid : hasId id (Json.obj fields) with
      | true => rw [Option.filter_some_pos hid, if_pos rfl]
      | false => rw [Option.filter_some_neg hid, if_neg (by decide)]
    refine ⟨hwhole, ?_⟩
    rintro part ⟨later, rfl⟩ v hv
    rw [decodeRpc, if_pos (by decide), Option.filter_eq_some_iff, fromSlice] at hv
    obtain ⟨hslice, hid⟩ := hv
    obtain ⟨t, ht, hpart⟩ := Option.bind_eq_some_iff.1 hslice
    obtain ⟨u, rfl⟩ := fromUtf8_append ht hbytes
    obtain rfl := parse_append (isNum_of_hasId hid) hpart hparse
    rw [List.find?_singleton, if_pos hid]
  | @events ls last values hls hlast hvalues =>
    have hblank : ∀ a b, answer ofLexeme id (a ++ [] :: b) = answer ofLexeme id (a ++ b) :=
      answer_blank id
    have hlines : ∀ l ∈ ls.map Prod.fst, OneLine l := fun l hl => by
      obtain ⟨x, hx, rfl⟩ := List.mem_map.1 hl
      exact hls x hx
    refine ⟨?_, ?_⟩
    · rw [decodeRpc, if_neg (by decide), hbytes]
      simp only [Option.bind_eq_bind, Option.bind_some]
      rw [replace_withEnds hls hlast, findSome?_split (answer_nil id) hblank hlines hlast.1,
        findSome?_answer hvalues]
    · rintro part ⟨later, rfl⟩ v hv
      rw [decodeRpc, if_neg (by decide)] at hv
      simp only [Option.bind_eq_bind, Option.bind_eq_some_iff] at hv
      obtain ⟨t, ht, hfound⟩ := hv
      obtain ⟨K, q, l, M, hreplace, hcut, hq⟩ := replace_cut hls hlast (fromUtf8_append ht hbytes)
      have hclean : ∀ x ∈ K ++ l :: M, OneLine x := fun x hx => by
        rw [← hcut] at hx
        rcases List.mem_append.1 hx with hx | hx
        · exact hlines x hx
        · rwa [List.mem_singleton.1 hx]
      have hK : ∀ x ∈ K, OneLine x := fun x hx => hclean x (List.mem_append_left _ hx)
      have hl : OneLine l := hclean l (List.mem_append_right _ List.mem_cons_self)
      have hq' : '\n' ∉ q := by
        rcases hq with hq | rfl
        · exact fun hmem => hl.1 (hq.subset hmem)
        · rw [List.mem_append, not_or]
          exact ⟨hl.1, by decide⟩
      rw [hreplace, findSome?_split (answer_nil id) hblank hK hq'] at hfound
      have hwhole : ∀ event ∈ paragraphs [] (K ++ l :: M), Whole ofLexeme event :=
        fun event hmem hdata => by
        rw [← hcut] at hmem
        have hvalue : parse ofLexeme (eventData event) ∈ values.map some := by
          rw [← hvalues]
          exact List.mem_map_of_mem (List.mem_filter.2 ⟨hmem, hdata⟩)
        obtain ⟨w, -, hw⟩ := List.mem_map.1 hvalue
        exact ⟨w, hw.symm⟩
      rw [← findSome?_answer hvalues, hcut]
      exact findSome?_cut hq [] hwhole hfound

theorem readChunks_eq {sse : Bool} {id : ℕ} {bytes : List ℕ} {result : Option (Json (Number F))}
    (hlimit : bytes.length ≤ responseLimit) (hwhole : decodeRpc ofLexeme bytes id sse = result)
    (hpart : ∀ part, part <+: bytes → ∀ v, decodeRpc ofLexeme part id sse = some v →
      result = some v)
    {body : List ℕ} {chunks : List (List ℕ)} (hbody : body ++ chunks.flatten = bytes)
    (hnone : decodeRpc ofLexeme body id sse = none) : readChunks ofLexeme sse id body chunks =
    rpcResult result := by
  induction chunks generalizing body with
  | nil =>
    rw [List.flatten_nil, List.append_nil] at hbody
    rw [← hwhole, ← hbody, hnone]
    rfl
  | cons chunk chunks ih =>
    rw [List.flatten_cons, ← List.append_assoc] at hbody
    have hfits : ¬ body.length + chunk.length > responseLimit := by
      rw [← hbody, List.length_append, List.length_append] at hlimit
      omega
    rw [readChunks, if_neg hfits]
    cases hdecode : decodeRpc ofLexeme (body ++ chunk) id sse with
    | none => exact ih hbody hdecode
    | some v => rw [hpart _ ⟨_, hbody⟩ v hdecode]

end Hook

/-- The result does not depend on how a body is cut into chunks: it is that of the first value with
the id. -/
theorem readRpcResponse_flatten {F : Type} (ofLexeme : List Char → Option (Json.Number F))
    {sse : Bool} {text : List Char}
    {values : List (Json (Json.Number F))} (hbody : Hook.RpcBody ofLexeme sse text values)
    {bytes : List ℕ}
    (hbytes : fromUtf8 bytes = some text) (hlimit : bytes.length ≤ Hook.responseLimit) (id : ℕ)
    {chunks : List (List ℕ)} (hchunks : chunks.flatten = bytes) :
    Hook.readRpcResponse ofLexeme sse id chunks =
    Hook.rpcResult (values.find? (Hook.hasId id)) := by
  obtain ⟨hwhole, hpart⟩ := hbody.decode hbytes id
  refine Hook.readChunks_eq hlimit hwhole hpart hchunks ?_
  cases sse with
  | true => rfl
  | false => rfl

/-- An event whose data are in two lines, cut in a line, within a character and between the halves
of a line end. -/
theorem readRpcResponse_flatten_event :
    Hook.readRpcResponse
    (fun cs => some (.posInt (cs.foldl (fun n c => n * 10 + (c.toNat - 48)) 0))) true 7
      [utf8 ": all".toList ++ [0xc3], 0xb4 :: utf8 "\nda".toList, [],
        utf8 "ta: \x7b\"id\":\r".toList, utf8 "\ndata:7\x7d\n\r\n".toList]
    = .ok (.obj [("id".toList, .num (.posInt 7 : Json.Number Unit))]) := by
  have hbody :
      Hook.RpcBody (fun cs => some (.posInt (cs.foldl (fun n c => n * 10 + (c.toNat - 48)) 0))) true
      (withEnds [(": allô".toList, false), ("data: \x7b\"id\":".toList, true),
        ("data:7\x7d".toList, false), ([], true)] [])
      [.obj [("id".toList, .num (.posInt 7 : Json.Number Unit))]] :=
      .events (by decide) (by decide) rfl
  exact readRpcResponse_flatten _ hbody (by decide +kernel) (by decide +kernel) 7 rfl

end Solo
