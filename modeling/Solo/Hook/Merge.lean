import Solo.Lib.Members
import Solo.Hook.Command

/-!
# Merging hooks into a client's configuration (`hooks.rs`, `merge_hooks`)

Handlers of the setup are taken out of every event, alone or in groups, and when hooks are enabled
new ones are put at the ends of two events. A group goes with its last handler.
-/

namespace Solo

open Text Json

namespace Hook

inductive HookClient where
  | claudeCode
  | codex
  | cursor
  | copilot
  | gemini

def HookClient.eventName : HookClient → HookEvent → Option String
  | .cursor, .sessionStart => some "sessionStart"
  | .gemini, .prompt => some "BeforeAgent"
  | .claudeCode, .prompt => some "UserPromptSubmit"
  | .codex, .prompt => some "UserPromptSubmit"
  | .cursor, .prompt => none
  | .copilot, .prompt => none
  | _, .sessionStart => some "SessionStart"

/-- The arguments of `hook_command` that the user chooses. -/
structure HookParams where
  exe : List Char
  url : List Char
  tokenEnv : List Char
  os : OperatingSystem

/-- An error with its text, or an index into a value that is no object. -/
inductive HookError where
  | bail (text : String)
  | panic

section

variable {F : Type}

def isOne : Json (Number F) → Bool
  | .num (.posInt n) => n = 1
  | _ => false

/-- `doc["version"] = json!(1)`. -/
def setVersion : Json (Number F) → Except HookError (Json (Number F))
  | .obj fields => .ok (.obj (insertField "version".toList (.num (.posInt 1)) fields))
  | .null => .ok (.obj [("version".toList, .num (.posInt 1))])
  | _ => .error .panic

/-- Clients whose events hold handlers, not groups. -/
def Client.flat (client : Client) : Bool := client = .cursor || client = .copilot

/-- The version of a document for a flat client that gets hooks. -/
def versioned (doc : Json (Number F)) (client : Client) (enabled : Bool) :
    Except HookError (Json (Number F)) :=
  if enabled && client.flat then
    if (doc.get "version").any fun v => !isOne v then
      .error (.bail ("unsupported " ++ client.displayName ++ " hooks version; no files changed"))
    else setVersion doc
  else .ok doc

/-- The members of the document, with a version and with hooks. -/
def hookRoot (doc : Json (Number F)) (client : Client) (enabled : Bool) :
    Except HookError (Fields (Number F)) := do
  let doc ← versioned doc client enabled
  match asObject doc with
  | some root => .ok (entryOrInsert "hooks".toList (.obj []) root)
  | none => .error (.bail "hook config root")

/-- `get_mut("hooks")` of an entry, and what is left of the handlers. -/
def setHandlers (entry : Json (Number F)) (handlers : List (Json (Number F))) : Json (Number F) :=
  match entry with
  | .obj fields => .obj (modifyField "hooks".toList (fun _ => .arr handlers) fields)
  | other => other

/-- The closure of `retain_mut`: what is left of an entry. -/
def retainEntry (client : Client) (entry : Json (Number F)) : Option (Json (Number F)) :=
  if ownedHandler entry client then none
  else
    match (entry.get "hooks").bind asArray with
    | some handlers =>
      let kept := handlers.filter fun handler => !ownedHandler handler client
      if handlers.length = kept.length || !kept.isEmpty then some (setHandlers entry kept) else none
    | none => some entry

def badGroup (entry : Json (Number F)) : Bool := (entry.get "hooks").any fun h => (asArray h).isNone

/-- One turn of the loop over the events. -/
def retainEvent (client : Client) (value : Json (Number F)) : Except HookError (Json (Number F)) :=
  match asArray value with
  | none => .error (.bail "existing hook event must be an array")
  | some entries =>
    if entries.any badGroup then .error (.bail "existing hook group must contain an array")
    else .ok (.arr (entries.filterMap (retainEntry client)))

def retainEvents (client : Client) : Fields (Number F) → Except HookError (Fields (Number F))
  | [] => .ok []
  | (name, value) :: hooks => do
    let value ← retainEvent client value
    let hooks ← retainEvents client hooks
    return (name, value) :: hooks

def hookEntry (client : Client) (event : HookEvent) (p : HookParams) : Json (Number F) :=
  let command := Json.str (hookCommand p.exe client event p.url p.tokenEnv p.os)
  let handler := Json.obj <|
    if client = .cursor then [("command".toList, command)]
    else
      [("command".toList, command),
        ("timeout".toList, .num (.posInt (if client = .gemini then 10000 else 10))),
        ("type".toList, .str "command".toList)]
  if client.flat then handler else .obj [("hooks".toList, .arr [handler])]

/-- `hooks.entry(name).or_insert_with(..).as_array_mut()?.push(entry)`. -/
def pushEntry (name : List Char) (entry : Json (Number F)) (hooks : Fields (Number F)) :
    Except HookError (Fields (Number F)) :=
  let hooks := entryOrInsert name (.arr []) hooks
  match (hooks.lookup name).bind asArray with
  | some entries => .ok (modifyField name (fun _ => .arr (entries ++ [entry])) hooks)
  | none => .error (.bail "hook event must be an array")

/-- The entries that are pushed, with the names of their events. -/
def newEntries (client : Client) (hookClient : HookClient) (p : HookParams) :
    List (List Char × Json (Number F)) :=
  [.sessionStart, .prompt].filterMap fun event =>
    (hookClient.eventName event).map fun name => (name.toList, hookEntry client event p)

def pushEntries : List (List Char × Json (Number F)) → Fields (Number F) →
    Except HookError (Fields (Number F))
  | [], hooks => .ok hooks
  | (name, entry) :: entries, hooks => do
    let hooks ← pushEntry name entry hooks
    pushEntries entries hooks

def addEntries (client : Client) (hookClient : HookClient) (p : HookParams) (enabled : Bool)
    (hooks : Fields (Number F)) : Except HookError (Fields (Number F)) :=
  if enabled then pushEntries (newEntries client hookClient p) hooks else .ok hooks

def mergeHooks (doc : Json (Number F)) (client : Client) (hookClient : HookClient) (p : HookParams)
    (enabled : Bool) : Except HookError (Json (Number F)) :=
  if !enabled && (doc.get "hooks").isNone then .ok doc
  else do
    let root ← hookRoot doc client enabled
    match (root.lookup "hooks".toList).bind asObject with
    | none => .error (.bail "existing hooks must be an object; no files changed")
    | some hooks =>
      let hooks ← retainEvents client hooks
      let hooks ← addEntries client hookClient p enabled hooks
      return .obj (modifyField "hooks".toList (fun _ => .obj hooks) root)

/-! ### What is left of an entry -/

/-- The handlers of a group; an entry that is no group has none. -/
def handlersOf (entry : Json (Number F)) : List (Json (Number F)) :=
  ((entry.get "hooks").bind asArray).getD []

/-- What is left of an entry: itself if no handler of it is owned, else itself with the handlers
that are not. -/
inductive Kept (client : Client) : Json (Number F) → Json (Number F) → Prop where
  | same {entry : Json (Number F)} (hown : ownedHandler entry client = false)
      (hall : ∀ h ∈ handlersOf entry, ownedHandler h client = false) : Kept client entry entry
  | fewer {fields : Fields (Number F)} (hown : ownedHandler (.obj fields) client = false)
      (hsome : ∃ h ∈ handlersOf (.obj fields), ownedHandler h client = true)
      (hleft : ∃ h ∈ handlersOf (.obj fields), ownedHandler h client = false) :
      Kept client (.obj fields) (.obj (modifyField "hooks".toList
        (fun _ => .arr ((handlersOf (.obj fields)).filter fun h => !ownedHandler h client)) fields))

/-- An entry that goes: a handler of the client, or a group of such handlers only. -/
def Dropped (client : Client) (entry : Json (Number F)) : Prop :=
  ownedHandler entry client = true ∨
    (handlersOf entry ≠ [] ∧ ∀ h ∈ handlersOf entry, ownedHandler h client = true)

theorem get_obj (fields : Fields (Number F)) (key : String) :
    (Json.obj fields).get key = fields.lookup key.toList := rfl

theorem lookup_hooks_eq {fields : Fields (Number F)} {handlers : List (Json (Number F))}
    (h : ((Json.obj fields).get "hooks").bind asArray = some handlers) :
    fields.lookup "hooks".toList = some (.arr handlers) := by
  obtain ⟨v, hv, harray⟩ := Option.bind_eq_some_iff.1 h
  cases v with
  | arr items => exact hv.trans (congrArg (fun x => some (Json.arr x)) (Option.some.inj harray))
  | _ => cases harray

theorem setHandlers_self {entry : Json (Number F)} {handlers : List (Json (Number F))}
    (h : (entry.get "hooks").bind asArray = some handlers) :
    setHandlers entry handlers = entry := by
  cases entry with
  | obj fields =>
    have hlookup := lookup_hooks_eq h
    exact congrArg Json.obj
      (modifyField_eq_self fun v hv => Option.some.inj (hlookup.symm.trans hv))
  | _ => rfl

/-- An entry that neither is an owned handler nor holds one is left as it is. -/
theorem retainEntry_self {client : Client} {entry : Json (Number F)}
    (hown : ownedHandler entry client = false)
    (hall : ∀ h ∈ handlersOf entry, ownedHandler h client = false) :
    retainEntry client entry = some entry := by
  unfold retainEntry
  rw [hown, if_neg Bool.false_ne_true]
  cases hget : (entry.get "hooks").bind asArray with
  | none => rfl
  | some handlers =>
    have hmem : ∀ h ∈ handlers, (!ownedHandler h client) = true := by
      intro h hh
      have hh' : h ∈ handlersOf entry := by rw [handlersOf, hget]; exact hh
      rw [hall h hh']
      rfl
    have hfilter : handlers.filter (fun handler => !ownedHandler handler client) = handlers :=
      List.filter_eq_self.2 hmem
    dsimp only
    rw [hfilter, decide_eq_true rfl, Bool.true_or, if_pos rfl, setHandlers_self hget]

/-- What becomes of an entry. -/
theorem retainEntry_cases (client : Client) (entry : Json (Number F)) :
    (retainEntry client entry = none ∧ Dropped client entry) ∨
      ∃ entry', retainEntry client entry = some entry' ∧ Kept client entry entry' := by
  cases hown : ownedHandler entry client with
  | true => exact .inl ⟨if_pos hown, .inl hown⟩
  | false =>
    by_cases hall : ∀ h ∈ handlersOf entry, ownedHandler h client = false
    · exact .inr ⟨entry, retainEntry_self hown hall, .same hown hall⟩
    · push Not at hall
      obtain ⟨owned, hmem, howned⟩ := hall
      have howned : ownedHandler owned client = true := Bool.eq_true_of_not_eq_false howned
      cases hget : (entry.get "hooks").bind asArray with
      | none =>
        rw [handlersOf, hget] at hmem
        exact absurd hmem List.not_mem_nil
      | some handlers =>
        have hhandlers : handlersOf entry = handlers := by rw [handlersOf, hget]; rfl
        cases entry with
        | obj fields =>
          let kept := handlers.filter fun handler => !ownedHandler handler client
          have hlength : decide (handlers.length = kept.length) = false := by
            refine decide_eq_false fun heq => ?_
            have hself :=
              (List.filter_sublist (p := fun handler => !ownedHandler handler client)).eq_of_length
              heq.symm
            have hnot := List.filter_eq_self.1 hself owned (hhandlers ▸ hmem)
            rw [howned] at hnot
            cases hnot
          have hretain : retainEntry client (.obj fields) = if (!kept.isEmpty) =
              true then some (setHandlers (.obj fields) kept) else none := by
            unfold retainEntry
            rw [hown, if_neg Bool.false_ne_true, hget]
            dsimp only
            rw [hlength, Bool.false_or]
          by_cases hleft : ∃ h ∈ handlers, ownedHandler h client = false
          · obtain ⟨h, hh, hfree⟩ := hleft
            have hkept : h ∈ kept := List.mem_filter.2 ⟨hh, by rw [hfree]; rfl⟩
            have hne : (!kept.isEmpty) = true := by
              rw [Bool.not_eq_true', List.isEmpty_eq_false_iff]
              exact List.ne_nil_of_mem hkept
            refine .inr ⟨_, hretain.trans (if_pos hne), ?_⟩
            have hfewer := Kept.fewer hown ⟨owned, hmem, howned⟩ ⟨h, hhandlers.symm ▸ hh, hfree⟩
            rw [hhandlers] at hfewer
            exact hfewer
          · push Not at hleft
            have hempty : kept = [] := List.filter_eq_nil_iff.2 fun h hh => by
              rw [Bool.eq_true_of_not_eq_false (hleft h hh)]
              decide
            refine .inl ⟨hretain.trans (if_neg ?_), .inr ⟨List.ne_nil_of_mem hmem, fun h hh => ?_⟩⟩
            · rw [hempty, List.isEmpty_nil]
              decide
            · exact Bool.eq_true_of_not_eq_false (hleft h (hhandlers ▸ hh))
        | _ => cases hget

theorem handlersOf_modifyField {fields : Fields (Number F)} {h : Json (Number F)}
    (hmem : h ∈ handlersOf (.obj fields)) (handlers : List (Json (Number F))) :
    handlersOf (.obj (modifyField "hooks".toList (fun _ => .arr handlers) fields)) = handlers := by
  cases hget : ((Json.obj fields).get "hooks").bind asArray with
  | none =>
    rw [handlersOf, hget] at hmem
    exact absurd hmem List.not_mem_nil
  | some old =>
    rw [handlersOf, get_obj, lookup_modifyField_self, lookup_hooks_eq hget]
    rfl

theorem ownedHandler_modifyField (fields : Fields (Number F))
    (f : Json (Number F) → Json (Number F)) (client : Client) :
    ownedHandler (.obj (modifyField "hooks".toList f fields)) client = ownedHandler (.obj fields)
    client := by
  have hne : "command".toList ≠ "hooks".toList := by decide
  unfold ownedHandler
  rw [get_obj, get_obj, lookup_modifyField_ne hne]

/-- What is left neither is an owned handler nor holds one. -/
theorem Kept.free {client : Client} {entry entry' : Json (Number F)}
    (h : Kept client entry entry') :
    ownedHandler entry' client = false ∧ ∀ h ∈ handlersOf entry', ownedHandler h client =
    false := by
  cases h with
  | same hown hall => exact ⟨hown, hall⟩
  | fewer hown hsome hleft =>
    obtain ⟨h, hmem, -⟩ := hleft
    refine ⟨(ownedHandler_modifyField _ _ client).trans hown, fun h' hh' => ?_⟩
    rw [handlersOf_modifyField hmem] at hh'
    exact Bool.not_eq_true' _ ▸ (List.mem_filter.1 hh').2

/-- The handlers that are not owned are left. -/
theorem Kept.handlers {client : Client} {entry entry' h : Json (Number F)}
    (hkept : Kept client entry entry')
    (hmem : h ∈ handlersOf entry) (hfree : ownedHandler h client = false) :
    h ∈ handlersOf entry' := by
  cases hkept with
  | same hown hall => exact hmem
  | fewer hown hsome hleft =>
    rw [handlersOf_modifyField hmem]
    exact List.mem_filter.2 ⟨hmem, by rw [hfree]; rfl⟩

theorem Kept.retained {client : Client} {entry entry' : Json (Number F)}
    (h : Kept client entry entry') :
    retainEntry client entry' = some entry' := retainEntry_self h.free.1 h.free.2

theorem badGroup_kept {client : Client} {entry entry' : Json (Number F)}
    (h : Kept client entry entry') (hgood : badGroup entry = false) : badGroup entry' = false := by
  cases h with
  | same => exact hgood
  | fewer hown hsome hleft =>
    obtain ⟨h, hmem, -⟩ := hleft
    cases hget : ((Json.obj _).get "hooks").bind asArray with
    | none =>
      rw [handlersOf, hget] at hmem
      exact absurd hmem List.not_mem_nil
    | some old =>
      rw [badGroup, get_obj, lookup_modifyField_self, lookup_hooks_eq hget]
      rfl

/-! ### What is left of an event -/

/-- What is left of the value of an event. -/
def clean (client : Client) : Json (Number F) → Json (Number F)
  | .arr entries => .arr (entries.filterMap (retainEntry client))
  | other => other

/-- An event as the merge wants it. -/
def Tidy (value : Json (Number F)) : Prop :=
  ∃ entries, value = .arr entries ∧ ∀ entry ∈ entries, badGroup entry = false

theorem retainEvent_iff {client : Client} {value value' : Json (Number F)} :
    retainEvent client value = .ok value' ↔ Tidy value ∧ value' = clean client value := by
  cases value with
  | arr entries =>
    unfold retainEvent
    dsimp only [asArray]
    constructor
    · intro h
      split_ifs at h with hbad
      refine ⟨⟨entries, rfl, fun entry hentry => ?_⟩, (Except.ok.inj h).symm⟩
      by_contra hgood
      exact hbad (List.any_eq_true.2 ⟨entry, hentry, Bool.eq_true_of_not_eq_false hgood⟩)
    · rintro ⟨⟨entries', heq, hgood⟩, rfl⟩
      obtain rfl := Json.arr.inj heq
      refine if_neg fun hbad => ?_
      obtain ⟨entry, hentry, hbad⟩ := List.any_eq_true.1 hbad
      rw [hgood entry hentry] at hbad
      cases hbad
  | _ =>
    constructor
    · intro h
      cases h
    · rintro ⟨⟨entries, heq, -⟩, -⟩
      cases heq

theorem retainEvents_iff {client : Client} {hooks hooks' : Fields (Number F)} :
    retainEvents client hooks = .ok hooks' ↔ (∀ kv ∈ hooks, Tidy kv.2) ∧
    hooks' = mapValues (clean client) hooks := by
  induction hooks generalizing hooks' with
  | nil =>
    constructor
    · intro h
      exact ⟨fun kv hkv => absurd hkv List.not_mem_nil, (Except.ok.inj h).symm⟩
    · rintro ⟨-, rfl⟩
      rfl
  | cons kv hooks ih =>
    obtain ⟨name, value⟩ := kv
    rw [List.forall_mem_cons]
    constructor
    · intro h
      rw [retainEvents] at h
      cases hvalue : retainEvent client value with
      | error e => rw [hvalue] at h; cases h
      | ok value' =>
        cases hrest : retainEvents client hooks with
        | error e => rw [hvalue, hrest] at h; cases h
        | ok rest =>
          rw [hvalue, hrest] at h
          obtain rfl := Except.ok.inj h
          obtain ⟨htidy, rfl⟩ := retainEvent_iff.1 hvalue
          obtain ⟨hall, rfl⟩ := ih.1 hrest
          exact ⟨⟨htidy, hall⟩, rfl⟩
    · rintro ⟨⟨htidy, hall⟩, rfl⟩
      rw [retainEvents, retainEvent_iff.2 ⟨htidy, rfl⟩, ih.2 ⟨hall, rfl⟩]
      rfl

theorem retainEntry_retained {client : Client} {entry entry' : Json (Number F)}
    (h : retainEntry client entry = some entry') : Kept client entry entry' := by
  rcases retainEntry_cases client entry with ⟨hnone, -⟩ | ⟨entry'', hsome, hkept⟩
  · rw [hnone] at h
    cases h
  · obtain rfl := Option.some.inj (hsome.symm.trans h)
    exact hkept

theorem filterMap_retainEntry (client : Client) (entries : List (Json (Number F))) :
    (entries.filterMap (retainEntry client)).filterMap (retainEntry client) =
    entries.filterMap (retainEntry client) := by
  induction entries with
  | nil => rfl
  | cons entry entries ih =>
    cases h : retainEntry client entry with
    | none => rw [List.filterMap_cons_none h, ih]
    | some entry' =>
      rw [List.filterMap_cons_some h, List.filterMap_cons_some (retainEntry_retained h).retained,
        ih]

theorem clean_clean (client : Client) (value : Json (Number F)) :
    clean client (clean client value) = clean client value := by
  cases value with
  | arr entries => exact congrArg Json.arr (filterMap_retainEntry client entries)
  | _ => rfl

theorem mapValues_clean (client : Client) (hooks : Fields (Number F)) :
    mapValues (clean client) (mapValues (clean client) hooks) = mapValues (clean client) hooks := by
  unfold mapValues
  rw [List.map_map]
  exact List.map_congr_left fun kv _ => congrArg (Prod.mk kv.1) (clean_clean client kv.2)

theorem tidy_clean {client : Client} {value : Json (Number F)} (h : Tidy value) :
    Tidy (clean client value) := by
  obtain ⟨entries, rfl, hgood⟩ := h
  refine ⟨_, rfl, fun entry' hentry' => ?_⟩
  obtain ⟨entry, hentry, hretain⟩ := List.mem_filterMap.1 hentry'
  exact badGroup_kept (retainEntry_retained hretain) (hgood entry hentry)

theorem tidy_mapValues {client : Client} {hooks : Fields (Number F)} (h : ∀ kv ∈ hooks, Tidy kv.2) :
    ∀ kv ∈ mapValues (clean client) hooks, Tidy kv.2 := by
  intro kv hkv
  obtain ⟨old, hold, rfl⟩ := List.mem_map.1 hkv
  exact tidy_clean (h old hold)

/-! ### New entries -/

/-- An entry at the end of an event. -/
def append (entry : Json (Number F)) : Json (Number F) → Json (Number F)
  | .arr entries => .arr (entries ++ [entry])
  | other => other

def push (hooks : Fields (Number F)) (new : List Char × Json (Number F)) : Fields (Number F) :=
  modifyField new.1 (append new.2) (entryOrInsert new.1 (.arr []) hooks)

/-- The events of these names, with no entries where there were none. -/
def ensure (hooks : Fields (Number F)) (names : List (List Char)) : Fields (Number F) :=
  names.foldl (fun hooks name => entryOrInsert name (.arr []) hooks) hooks

theorem mem_of_lookup {key : List Char} {v : Json (Number F)} {fields : Fields (Number F)}
    (h : fields.lookup key = some v) : (key, v) ∈ fields := by
  induction fields with
  | nil => cases h
  | cons kv fields ih =>
    obtain ⟨k, x⟩ := kv
    by_cases heq : key = k
    · obtain rfl := heq
      rw [lookup_cons_self] at h
      exact Option.some.inj h ▸ List.mem_cons_self
    · exact List.mem_cons_of_mem _ (ih ((lookup_cons_ne heq x).symm.trans h))

theorem tidy_entryOrInsert {name : List Char} {hooks : Fields (Number F)}
    (h : ∀ kv ∈ hooks, Tidy kv.2) : ∀ kv ∈ entryOrInsert name (.arr []) hooks, Tidy kv.2 := by
  intro kv hkv
  rcases mem_of_mem_entryOrInsert hkv with rfl | hkv
  · exact ⟨[], rfl, fun entry hentry => absurd hentry List.not_mem_nil⟩
  · exact h kv hkv

theorem tidy_push {hooks : Fields (Number F)} {new : List Char × Json (Number F)}
    (h : ∀ kv ∈ hooks, Tidy kv.2)
    (hgood : badGroup new.2 = false) : ∀ kv ∈ push hooks new, Tidy kv.2 := by
  intro kv hkv
  rcases mem_of_mem_modifyField hkv with hkv | ⟨v, hv, heq⟩
  · exact tidy_entryOrInsert h kv hkv
  · obtain ⟨entries, rfl, hall⟩ : Tidy v := tidy_entryOrInsert h (kv.1, v) hv
    refine ⟨entries ++ [new.2], heq, fun entry hentry => ?_⟩
    rcases List.mem_append.1 hentry with hentry | hentry
    · exact hall entry hentry
    · exact List.mem_singleton.1 hentry ▸ hgood

theorem pushEntry_eq {hooks : Fields (Number F)} (h : ∀ kv ∈ hooks, Tidy kv.2)
    (new : List Char × Json (Number F)) : pushEntry new.1 new.2 hooks = .ok (push hooks new) := by
  have hlookup : (entryOrInsert new.1 (.arr []) hooks).lookup new.1 =
      some ((hooks.lookup new.1).getD (.arr [])) :=
    lookup_entryOrInsert_self _
  obtain ⟨entries, hentries, -⟩ : Tidy ((hooks.lookup new.1).getD (.arr [])) :=
    tidy_entryOrInsert h _ (mem_of_lookup hlookup)
  rw [hentries] at hlookup
  unfold pushEntry push
  dsimp only
  rw [hlookup]
  refine congrArg Except.ok (modifyField_congr fun v hv => ?_)
  rw [hlookup] at hv
  exact Option.some.inj hv ▸ rfl

theorem pushEntries_eq {hooks : Fields (Number F)} (h : ∀ kv ∈ hooks, Tidy kv.2)
    {new : List (List Char × Json (Number F))} (hgood : ∀ x ∈ new, badGroup x.2 = false) :
    pushEntries new hooks = .ok (new.foldl push hooks) ∧
    ∀ kv ∈ new.foldl push hooks, Tidy kv.2 := by
  induction new generalizing hooks with
  | nil => exact ⟨rfl, h⟩
  | cons x new ih =>
    obtain ⟨hx, hnew⟩ := List.forall_mem_cons.1 hgood
    obtain ⟨hpush, htidy⟩ := ih (tidy_push h hx) hnew
    refine ⟨?_, htidy⟩
    rw [pushEntries, pushEntry_eq h x]
    exact hpush

/-- New entries are taken out again, and leave their events. -/
theorem mapValues_push {client : Client} {hooks : Fields (Number F)}
    {new : List Char × Json (Number F)} (hgone : retainEntry client new.2 = none) :
    mapValues (clean client) (push hooks new) = entryOrInsert new.1 (.arr [])
    (mapValues (clean client) hooks) := by
  have happend (v : Json (Number F)) : clean client (append new.2 v) = clean client v := by
    cases v with
    | arr entries =>
      refine congrArg Json.arr ?_
      rw [List.filterMap_append, List.filterMap_cons_none hgone, List.filterMap_nil,
        List.append_nil]
    | _ => rfl
  have hid : mapValues (clean client) (push hooks new)
      = modifyField new.1 id (mapValues (clean client) (entryOrInsert new.1 (.arr []) hooks)) :=
    mapValues_modifyField fun v _ => happend v
  exact hid.trans
    ((modifyField_eq_self fun v _ => rfl).trans (mapValues_entryOrInsert (clean client) (.arr [])))

theorem mapValues_pushAll {client : Client} {hooks : Fields (Number F)}
    {new : List (List Char × Json (Number F))} (hgone : ∀ x ∈ new, retainEntry client x.2 = none) :
    mapValues (clean client) (new.foldl push hooks) = ensure (mapValues (clean client) hooks)
    (new.map Prod.fst) := by
  induction new generalizing hooks with
  | nil => rfl
  | cons x new ih =>
    obtain ⟨hx, hnew⟩ := List.forall_mem_cons.1 hgone
    rw [List.foldl_cons, ih hnew, mapValues_push hx]
    rfl

theorem push_ensure {hooks : Fields (Number F)} {new : List Char × Json (Number F)}
    {names : List (List Char)} (hne : new.1 ∉ names) (hsome : (hooks.lookup new.1).isSome = true) :
    push (ensure hooks names) new = ensure (push hooks new) names := by
  induction names generalizing hooks with
  | nil => rfl
  | cons name names ih =>
    have hname : new.1 ≠ name := fun heq => hne (heq ▸ List.mem_cons_self)
    have hnames : new.1 ∉ names := fun hmem => hne (List.mem_cons_of_mem _ hmem)
    have hsome' : ((entryOrInsert name (.arr []) hooks).lookup new.1).isSome = true := by
      rw [lookup_entryOrInsert_ne hname]
      exact hsome
    have hpush : push (entryOrInsert name (.arr []) hooks) new = entryOrInsert name (.arr [])
        (push hooks new) := by
      rw [push, entryOrInsert_of_some hsome', modifyField_entryOrInsert_ne hname, push,
        entryOrInsert_of_some hsome]
    have hcons (l : Fields (Number F)) :
        ensure l (name :: names) = ensure (entryOrInsert name (.arr []) l) names := rfl
    rw [hcons, hcons, ih hnames hsome', hpush]

theorem push_entryOrInsert (hooks : Fields (Number F)) (new : List Char × Json (Number F)) :
    push (entryOrInsert new.1 (.arr []) hooks) new = push hooks new := by
  have hsome : ((entryOrInsert new.1 (.arr []) hooks).lookup new.1).isSome = true := by
    rw [lookup_entryOrInsert_self]
    rfl
  rw [push, entryOrInsert_of_some hsome, push]

/-- New entries do not depend on whether their events were there. -/
theorem pushAll_ensure {hooks : Fields (Number F)} {new : List (List Char × Json (Number F))}
    (hnodup : (new.map Prod.fst).Nodup) :
    new.foldl push (ensure hooks (new.map Prod.fst)) = new.foldl push hooks := by
  induction new generalizing hooks with
  | nil => rfl
  | cons x new ih =>
    obtain ⟨hx, hnew⟩ := List.nodup_cons.1 hnodup
    have hsome : ((entryOrInsert x.1 (.arr []) hooks).lookup x.1).isSome = true := by
      rw [lookup_entryOrInsert_self]
      rfl
    have hcons : ensure hooks ((x :: new).map Prod.fst) = ensure (entryOrInsert x.1 (.arr []) hooks)
        (new.map Prod.fst) := rfl
    rw [List.foldl_cons, hcons, push_ensure hx hsome, push_entryOrInsert, ih hnew, List.foldl_cons]

/-- The names of the events that new entries go to. -/
def eventNames (hookClient : HookClient) : List (List Char) :=
  [HookEvent.sessionStart, .prompt].filterMap fun event =>
    (hookClient.eventName event).map String.toList

theorem map_newEntries (client : Client) (hookClient : HookClient) (p : HookParams) :
    (newEntries client hookClient p : List (List Char × Json (Number F))).map Prod.fst =
    eventNames hookClient := by
  cases hookClient <;> rfl

theorem nodup_eventNames (hookClient : HookClient) : (eventNames hookClient).Nodup := by
  cases hookClient <;> decide

theorem mem_newEntries {client : Client} {hookClient : HookClient} {p : HookParams}
    {x : List Char × Json (Number F)}
    (h : x ∈ newEntries client hookClient p) : ∃ event, x.2 = hookEntry client event p := by
  obtain ⟨event, -, hx⟩ := List.mem_filterMap.1 h
  obtain ⟨name, -, rfl⟩ := Option.map_eq_some_iff.1 hx
  exact ⟨event, rfl⟩

/-- The handler in a new entry. -/
def newHandler (client : Client) (event : HookEvent) (p : HookParams) : Json (Number F) :=
  .obj <|
    if client =
      .cursor then [("command".toList, .str (hookCommand p.exe client event p.url p.tokenEnv p.os))]
    else
      [("command".toList, .str (hookCommand p.exe client event p.url p.tokenEnv p.os)),
        ("timeout".toList, .num (.posInt (if client = .gemini then 10000 else 10))),
          ("type".toList, .str "command".toList)]

theorem hookEntry_eq (client : Client) (event : HookEvent) (p : HookParams) :
    (hookEntry client event p : Json (Number F))
      = if client.flat then newHandler client event p else .obj
      [("hooks".toList, .arr [newHandler client event p])] := rfl

theorem produced_newHandler (client : Client) (event : HookEvent) (p : HookParams) :
    Produced client (newHandler client event p : Json (Number F)) := by
  refine ⟨p.exe, event, p.url, p.tokenEnv, p.os, ?_⟩
  unfold newHandler
  rw [get_obj]
  by_cases hcursor : client = .cursor
  · rw [if_pos hcursor]
    exact lookup_cons_self _
  · rw [if_neg hcursor]
    exact lookup_cons_self _

/-- A new entry is taken out by the next merge. -/
theorem retainEntry_hookEntry (client : Client) (event : HookEvent) (p : HookParams) :
    retainEntry client (hookEntry client event p : Json (Number F)) = none := by
  have hown : ownedHandler (newHandler client event p : Json (Number F)) client = true :=
    (ownedHandler_of_produced (produced_newHandler client event p)).2 rfl
  rw [hookEntry_eq]
  split_ifs with hflat
  · exact if_pos hown
  · have hgroup :
        ownedHandler (.obj [("hooks".toList, .arr [newHandler client event p])] : Json (Number F))
        client = false := rfl
    unfold retainEntry
    rw [hgroup, if_neg Bool.false_ne_true, get_obj, lookup_cons_self, Option.bind_some, asArray]
    dsimp only
    rw [List.filter_cons_of_neg (by rw [hown]; decide), List.filter_nil]
    rfl

theorem badGroup_hookEntry (client : Client) (event : HookEvent) (p : HookParams) :
    badGroup (hookEntry client event p : Json (Number F)) = false := by
  rw [hookEntry_eq]
  split_ifs with hflat
  · unfold newHandler
    split_ifs <;> rfl
  · rfl

end

end Hook

end Solo
