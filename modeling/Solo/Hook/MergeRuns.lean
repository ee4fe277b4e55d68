import Solo.Hook.Merge

/-!
# Runs of the hook merge

Each merge takes out what an earlier one put in, so only the last one counts, and one that disables
leaves what the user and other clients wrote.
-/

namespace Solo

open Text Json

namespace Hook

section

variable {F : Type}

/-! ### One merge -/

/-- The hooks that a merge writes. -/
def mergedHooks (client : Client) (hookClient : HookClient) (p : HookParams) (enabled : Bool)
    (hooks : Fields (Number F)) : Fields (Number F) :=
  if enabled then (newEntries client hookClient p).foldl push (mapValues (clean client) hooks)
    else mapValues (clean client) hooks

/-- The document with these hooks. -/
def withHooks (root : Fields (Number F)) (hooks : Fields (Number F)) : Json (Number F) :=
  .obj (modifyField "hooks".toList (fun _ => .obj hooks) root)

theorem newEntries_spec (client : Client) (hookClient : HookClient) (p : HookParams) :
    ∀ x ∈ (newEntries client hookClient p : List (List Char × Json (Number F))),
      retainEntry client x.2 = none ∧ badGroup x.2 = false := by
  intro x hx
  obtain ⟨event, heq⟩ := mem_newEntries hx
  exact heq ▸ ⟨retainEntry_hookEntry client event p, badGroup_hookEntry client event p⟩

theorem tidy_mergedHooks {client : Client} {hookClient : HookClient} {p : HookParams}
    {enabled : Bool} {hooks : Fields (Number F)}
    (h : ∀ kv ∈ hooks, Tidy kv.2) :
    ∀ kv ∈ mergedHooks client hookClient p enabled hooks, Tidy kv.2 := by
  unfold mergedHooks
  split_ifs
  · exact (pushEntries_eq (tidy_mapValues h) fun x hx =>
      (newEntries_spec client hookClient p x hx).2).2
  · exact tidy_mapValues h

/-- When a merge goes through, and what it writes. -/
theorem mergeHooks_iff {doc after : Json (Number F)} {client : Client} {hookClient : HookClient}
    {p : HookParams} {enabled : Bool} (hdo : ¬(!enabled && (doc.get "hooks").isNone) = true) :
    mergeHooks doc client hookClient p enabled = .ok after ↔
    ∃ root hooks, hookRoot doc client enabled = .ok root ∧
      root.lookup "hooks".toList = some (.obj hooks) ∧ (∀ kv ∈ hooks, Tidy kv.2) ∧
      after = withHooks root (mergedHooks client hookClient p enabled hooks) := by
  unfold mergeHooks
  rw [if_neg hdo]
  have hwrite {hooks : Fields (Number F)} (h : ∀ kv ∈ hooks, Tidy kv.2) :
      addEntries client hookClient p enabled (mapValues (clean client) hooks) =
      .ok (mergedHooks client hookClient p enabled hooks) := by
    unfold addEntries mergedHooks
    split_ifs
    · exact (pushEntries_eq (tidy_mapValues h) fun x hx =>
        (newEntries_spec client hookClient p x hx).2).1
    · rfl
  constructor
  · intro h
    cases hroot : hookRoot doc client enabled with
    | error e => rw [hroot] at h; cases h
    | ok root =>
      cases hhooks : (root.lookup "hooks".toList).bind asObject with
      | none =>
        rw [hroot] at h
        dsimp only [bind, Except.bind] at h
        rw [hhooks] at h
        cases h
      | some hooks =>
        have hlookup : root.lookup "hooks".toList = some (.obj hooks) := by
          obtain ⟨v, hv, hobj⟩ := Option.bind_eq_some_iff.1 hhooks
          cases v with
          | obj fields =>
            exact hv.trans (congrArg (fun x => some (Json.obj x)) (Option.some.inj hobj))
          | _ => cases hobj
        rw [hroot] at h
        dsimp only [bind, Except.bind] at h
        rw [hhooks] at h
        dsimp only at h
        cases hretain : retainEvents client hooks with
        | error e => rw [hretain] at h; cases h
        | ok hooks' =>
          obtain ⟨htidy, rfl⟩ := retainEvents_iff.1 hretain
          rw [hretain] at h
          dsimp only at h
          rw [hwrite htidy] at h
          exact ⟨root, hooks, rfl, hlookup, htidy, (Except.ok.inj h).symm⟩
  · rintro ⟨root, hooks, hroot, hlookup, htidy, rfl⟩
    rw [hroot]
    dsimp only [bind, Except.bind]
    rw [hlookup, Option.bind_some, asObject]
    dsimp only
    rw [retainEvents_iff.2 ⟨htidy, rfl⟩]
    dsimp only
    rw [hwrite htidy]
    rfl

/-- A root of a merge that enables hooks: the members have a version, when the client wants one, and
hooks. -/
inductive EnabledRoot (client : Client) : Json (Number F) → Fields (Number F) → Prop where
  | flat {fields : Fields (Number F)} {doc : Json (Number F)} (hflat : client.flat = true)
      (hone : ∀ v, doc.get "version" = some v → isOne v = true)
      (hdoc : doc = .obj fields ∨ doc = .null ∧ fields = []) :
      EnabledRoot client doc
      (entryOrInsert "hooks".toList (.obj [])
        (insertField "version".toList (.num (.posInt 1)) fields))
  | grouped {fields : Fields (Number F)} (hflat : client.flat = false) :
      EnabledRoot client (.obj fields) (entryOrInsert "hooks".toList (.obj []) fields)

theorem setVersion_iff {doc doc' : Json (Number F)} : setVersion doc = .ok doc' ↔
    ∃ fields, (doc = .obj fields ∨ doc = .null ∧ fields = []) ∧
      doc' = .obj (insertField "version".toList (.num (.posInt 1)) fields) := by
  constructor
  · intro h
    cases doc with
    | obj fields => exact ⟨fields, .inl rfl, (Except.ok.inj h).symm⟩
    | null => exact ⟨[], .inr ⟨rfl, rfl⟩, (Except.ok.inj h).symm⟩
    | _ => cases h
  · rintro ⟨fields, rfl | ⟨rfl, rfl⟩, rfl⟩
    · rfl
    · rfl

theorem hookRoot_enabled {doc : Json (Number F)} {client : Client} {root : Fields (Number F)} :
    hookRoot doc client true = .ok root ↔ EnabledRoot client doc root := by
  unfold hookRoot versioned
  rw [Bool.true_and]
  cases hflat : client.flat with
  | true =>
    rw [if_pos rfl]
    constructor
    · intro h
      split_ifs at h with hversion
      · cases h
      · cases hset : setVersion doc with
        | error e => rw [hset] at h; cases h
        | ok doc' =>
          obtain ⟨fields, hdoc, rfl⟩ := setVersion_iff.1 hset
          rw [hset] at h
          obtain rfl := Except.ok.inj h
          refine .flat hflat (fun v hv => ?_) hdoc
          rw [hv, Option.any_some] at hversion
          exact Bool.not_eq_false' _ ▸ Bool.eq_false_of_not_eq_true hversion
    · intro h
      cases h with
      | flat _ hone hdoc =>
        have hversion : ¬((doc.get "version").any fun v => !isOne v) = true := by
          cases hv : doc.get "version" with
          | none => exact Bool.false_ne_true
          | some v =>
            rw [Option.any_some, hone v hv]
            exact Bool.false_ne_true
        rw [if_neg hversion, setVersion_iff.2 ⟨_, hdoc, rfl⟩]
        rfl
      | grouped hgrouped =>
        rw [hflat] at hgrouped
        cases hgrouped
  | false =>
    rw [if_neg Bool.false_ne_true]
    constructor
    · intro h
      cases doc with
      | obj fields =>
        obtain rfl := Except.ok.inj h
        exact .grouped hflat
      | _ => cases h
    · intro h
      cases h with
      | flat hflat' =>
        rw [hflat] at hflat'
        cases hflat'
      | grouped => rfl

theorem hookRoot_disabled {doc : Json (Number F)} {client : Client} {root : Fields (Number F)} :
    hookRoot doc client false = .ok root ↔ ∃ fields, doc = .obj fields ∧
    root = entryOrInsert "hooks".toList (.obj []) fields := by
  constructor
  · intro h
    cases doc with
    | obj fields => exact ⟨fields, rfl, (Except.ok.inj h).symm⟩
    | _ => cases h
  · rintro ⟨fields, rfl, rfl⟩
    rfl

theorem EnabledRoot.lookup_hooks {doc : Json (Number F)} {client : Client}
    {root : Fields (Number F)}
    (h : EnabledRoot client doc root) : (root.lookup "hooks".toList).isSome = true := by
  cases h with
  | flat => rw [lookup_entryOrInsert_self]; rfl
  | grouped => rw [lookup_entryOrInsert_self]; rfl

theorem EnabledRoot.of_place {client : Client} {root : Fields (Number F)}
    (hsome : (root.lookup "hooks".toList).isSome = true)
    (hplace : client.flat = true → insertField "version".toList (.num (.posInt 1)) root = root)
    (hversion : client.flat = true → root.lookup "version".toList = some (.num (.posInt 1))) :
    EnabledRoot client (.obj root) root := by
  have hself : entryOrInsert "hooks".toList (.obj []) root = root := entryOrInsert_of_some hsome
  cases hflat : client.flat with
  | true =>
    have hone : ∀ v, (Json.obj root).get "version" = some v → isOne v = true := fun v hv =>
      Option.some.inj ((hversion hflat).symm.trans hv) ▸ rfl
    have hroot := EnabledRoot.flat hflat hone (.inl rfl)
    rw [hplace hflat, hself] at hroot
    exact hroot
  | false =>
    have hroot : EnabledRoot client (.obj root) (entryOrInsert "hooks".toList (.obj []) root) :=
      .grouped hflat
    rw [hself] at hroot
    exact hroot

theorem version_ne_hooks : "version".toList ≠ "hooks".toList := by decide

theorem EnabledRoot.version {doc : Json (Number F)} {client : Client} {root : Fields (Number F)}
    (h : EnabledRoot client doc root)
    (hflat : client.flat = true) : insertField "version".toList (.num (.posInt 1)) root = root ∧
      root.lookup "version".toList = some (.num (.posInt 1)) := by
  cases h with
  | flat =>
    have hlt : ¬keyLt "version".toList "hooks".toList = true := by decide
    constructor
    · unfold entryOrInsert
      split_ifs
      · exact insertField_insertField_self _ _
      · exact insertField_insertField_of_self hlt version_ne_hooks
          (insertField_insertField_self _ _)
    · rw [lookup_entryOrInsert_ne version_ne_hooks, lookup_insertField_self]
  | grouped hgrouped =>
    rw [hflat] at hgrouped
    cases hgrouped

/-- A root that a merge made is its own root again. -/
theorem EnabledRoot.again {doc : Json (Number F)} {client : Client} {root : Fields (Number F)}
    (h : EnabledRoot client doc root) (hooks : Fields (Number F)) :
    EnabledRoot client (withHooks root hooks)
    (modifyField "hooks".toList (fun _ => .obj hooks) root) := by
  refine .of_place ?_ (fun hflat => ?_) (fun hflat => ?_)
  · rw [lookup_modifyField_self, Option.isSome_map]
    exact h.lookup_hooks
  · rw [← modifyField_insertField_ne version_ne_hooks.symm, (h.version hflat).1]
  · rw [lookup_modifyField_ne version_ne_hooks, (h.version hflat).2]

/-! ### Runs -/

theorem withHooks_withHooks (root hooks hooks' : Fields (Number F)) :
    withHooks (modifyField "hooks".toList (fun _ => .obj hooks) root) hooks' =
    withHooks root hooks' :=
  congrArg Json.obj (modifyField_modifyField_self _ _)

theorem lookup_withHooks {root : Fields (Number F)} (h : (root.lookup "hooks".toList).isSome = true)
    (hooks : Fields (Number F)) :
    (modifyField "hooks".toList (fun _ => .obj hooks) root).lookup "hooks".toList =
    some (.obj hooks) := by
  obtain ⟨v, hv⟩ := Option.isSome_iff_exists.1 h
  rw [lookup_modifyField_self, hv, Option.map_some]

theorem not_skipped_enabled (doc : Json (Number F)) : ¬(!true && (doc.get "hooks").isNone) = true :=
  Bool.false_ne_true

/-- New hooks are taken out of the hooks again. -/
theorem clean_mergedHooks (client : Client) (hookClient : HookClient) (p : HookParams)
    (hooks : Fields (Number F)) :
    mapValues (clean client) (mergedHooks client hookClient p true hooks)
      = ensure (mapValues (clean client) hooks) (eventNames hookClient) := by
  unfold mergedHooks
  rw [if_pos rfl, mapValues_pushAll fun x hx => (newEntries_spec client hookClient p x hx).1,
    mapValues_clean, map_newEntries]

theorem mergedHooks_enabled (client : Client) (hookClient : HookClient) (p : HookParams)
    (hooks : Fields (Number F)) :
    mergedHooks client hookClient p true hooks = (newEntries client hookClient p).foldl push
    (mapValues (clean client) hooks) := rfl

theorem mergedHooks_mergedHooks (client : Client) (hookClient : HookClient) (p q : HookParams)
    (hooks : Fields (Number F)) :
    mergedHooks client hookClient q true (mergedHooks client hookClient p true hooks) =
    mergedHooks client hookClient q true hooks := by
  have hnodup :
      ((newEntries client hookClient q : List (List Char × Json (Number F))).map
        Prod.fst).Nodup := by
    rw [map_newEntries]
    exact nodup_eventNames hookClient
  rw [mergedHooks_enabled client hookClient q, clean_mergedHooks, mergedHooks_enabled,
    ← map_newEntries client hookClient q, pushAll_ensure hnodup]

/-- Enabling again is as if it were the first time. -/
theorem mergeHooks_mergeHooks {doc d : Json (Number F)} {client : Client} {hookClient : HookClient}
    {p : HookParams} (h : mergeHooks doc client hookClient p true = .ok d) (q : HookParams) :
    ∃ after, mergeHooks d client hookClient q true = .ok after ∧
    mergeHooks doc client hookClient q true = .ok after := by
  obtain ⟨root, hooks, hroot, hlookup, htidy, rfl⟩ := (mergeHooks_iff (not_skipped_enabled doc)).1 h
  have henabled : EnabledRoot client doc root := hookRoot_enabled.1 hroot
  have honce : mergeHooks doc client hookClient q true =
      .ok (withHooks root (mergedHooks client hookClient q true hooks)) :=
    (mergeHooks_iff (not_skipped_enabled doc)).2 ⟨root, hooks, hroot, hlookup, htidy, rfl⟩
  refine ⟨_, ?_, honce⟩
  refine (mergeHooks_iff (not_skipped_enabled _)).2 ⟨_, _, hookRoot_enabled.2 (henabled.again _),
    lookup_withHooks henabled.lookup_hooks _, tidy_mergedHooks htidy, ?_⟩
  rw [withHooks_withHooks, mergedHooks_mergedHooks]

/-- Enabled with each of the parameters, one after another. -/
def enableAll (client : Client) (hookClient : HookClient) : List HookParams → Json (Number F) →
    Except HookError (Json (Number F))
  | [], doc => .ok doc
  | p :: ps, doc => (mergeHooks doc client hookClient p true).bind (enableAll client hookClient ps)

theorem enableAll_cons {client : Client} {hookClient : HookClient} {p : HookParams}
    {ps : List HookParams}
    {doc d : Json (Number F)} (h : enableAll client hookClient (p :: ps) doc = .ok d) :
    ∃ q, mergeHooks doc client hookClient q true = .ok d := by
  induction ps generalizing p doc with
  | nil =>
    rw [enableAll] at h
    cases hmerge : mergeHooks doc client hookClient p true with
    | error e => rw [hmerge] at h; cases h
    | ok d' =>
      rw [hmerge] at h
      obtain rfl := Except.ok.inj h
      exact ⟨p, hmerge⟩
  | cons p' ps ih =>
    rw [enableAll] at h
    cases hmerge : mergeHooks doc client hookClient p true with
    | error e => rw [hmerge] at h; cases h
    | ok d' =>
      rw [hmerge] at h
      obtain ⟨q, hq⟩ := ih h
      obtain ⟨after, hagain, honce⟩ := mergeHooks_mergeHooks hmerge q
      exact ⟨q, honce.trans (hagain.symm.trans hq)⟩

/-! ### What a run leaves -/

def hooksOf (doc : Json (Number F)) : Fields (Number F) := ((doc.get "hooks").bind asObject).getD []

/-- The members that are neither the hooks nor their version. -/
def others (doc : Json (Number F)) : Fields (Number F) :=
  ((asObject doc).getD []).filter fun kv => kv.1 ≠ "hooks".toList && kv.1 ≠ "version".toList

/-- A handler that stands in an event, alone or in a group. -/
def Holds (doc handler : Json (Number F)) : Prop :=
  ∃ kv ∈ hooksOf doc, ∃ entries, kv.2 = .arr entries ∧ ∃ entry ∈ entries, entry = handler ∨
    handler ∈ handlersOf entry

/-- The entries that are left, in their order. -/
inductive Trimmed (client : Client) : List (Json (Number F)) → List (Json (Number F)) → Prop where
  | nil : Trimmed client [] []
  | drop {entry : Json (Number F)} {entries entries' : List (Json (Number F))} (hdrop :
    Dropped client entry)
      (hrest : Trimmed client entries entries') : Trimmed client (entry :: entries) entries'
  | keep {entry entry' : Json (Number F)} {entries entries' : List (Json (Number F))} (hkeep :
    Kept client entry entry')
      (hrest : Trimmed client entries entries') :
      Trimmed client (entry :: entries) (entry' :: entries')

def TrimmedEvent (client : Client) (x y : List Char × Json (Number F)) : Prop :=
  x.1 = y.1 ∧ ∃ entries entries', x.2 = .arr entries ∧ y.2 = .arr entries' ∧
    Trimmed client entries entries'

/-- What hooks that are disabled leave of a document. -/
structure Disabled (client : Client) (before after : Json (Number F)) : Prop where
  gone : ∀ handler, Holds after handler → ownedHandler handler client = false ∧
    ¬Produced client handler
  kept : ∃ events, List.Forall₂ (TrimmedEvent client) (hooksOf before) events ∧
    events.Sublist (hooksOf after) ∧ ∀ kv ∈ hooksOf after, kv ∈ events ∨ kv.2 = .arr []
  others : others after = others before
  version : after.get "version" = before.get "version" ∨
    before.get "version" = none ∧ after.get "version" = some (.num (.posInt 1))

theorem hooksOf_withHooks {root : Fields (Number F)}
    (h : (root.lookup "hooks".toList).isSome = true) (hooks : Fields (Number F)) :
    hooksOf (withHooks root hooks) = hooks := by
  rw [hooksOf, withHooks, get_obj, lookup_withHooks h]
  rfl

theorem trimmed_filterMap (client : Client) (entries : List (Json (Number F))) :
    Trimmed client entries (entries.filterMap (retainEntry client)) := by
  induction entries with
  | nil => exact .nil
  | cons entry entries ih =>
    rcases retainEntry_cases client entry with ⟨hnone, hdrop⟩ | ⟨entry', hsome, hkeep⟩
    · rw [List.filterMap_cons_none hnone]
      exact .drop hdrop ih
    · rw [List.filterMap_cons_some hsome]
      exact .keep hkeep ih

theorem forall₂_trimmed {client : Client} {hooks : Fields (Number F)}
    (h : ∀ kv ∈ hooks, Tidy kv.2) :
    List.Forall₂ (TrimmedEvent client) hooks (mapValues (clean client) hooks) := by
  induction hooks with
  | nil => exact .nil
  | cons kv hooks ih =>
    obtain ⟨⟨entries, hentries, -⟩, hrest⟩ := List.forall_mem_cons.1 h
    have hclean : clean client kv.2 = .arr (entries.filterMap (retainEntry client)) := by
      rw [hentries]
      rfl
    exact .cons ⟨rfl, entries, _, hentries, hclean, trimmed_filterMap client entries⟩ (ih hrest)

/-- The hooks that are left: those that were there, trimmed, and events without entries. -/
structure Left (client : Client) (before after : Fields (Number F)) : Prop where
  sublist : (mapValues (clean client) before).Sublist after
  empty : ∀ kv ∈ after, kv ∈ mapValues (clean client) before ∨ kv.2 = .arr []

theorem left_ensure {client : Client} {before hooks : Fields (Number F)}
    (h : Left client before hooks) (names : List (List Char)) :
    Left client before (ensure hooks names) := by
  induction names generalizing hooks with
  | nil => exact h
  | cons name names ih =>
    refine ih ⟨h.sublist.trans (sublist_entryOrInsert _), fun kv hkv => ?_⟩
    rcases mem_of_mem_entryOrInsert hkv with rfl | hkv
    · exact .inr rfl
    · exact h.empty kv hkv

theorem left_clean (client : Client) (hooks : Fields (Number F)) :
    Left client hooks (mapValues (clean client) hooks) :=
  ⟨List.Sublist.refl _, fun _ hkv => .inl hkv⟩

theorem Left.gone {client : Client} {before after : Fields (Number F)}
    (h : Left client before after)
    {kv : List Char × Json (Number F)} (hkv : kv ∈ after) {entries : List (Json (Number F))}
    (hentries : kv.2 = .arr entries)
    {entry handler : Json (Number F)} (hentry : entry ∈ entries)
    (hhandler : entry = handler ∨ handler ∈ handlersOf entry) :
    ownedHandler handler client = false := by
  rcases h.empty kv hkv with hold | hempty
  · obtain ⟨old, -, rfl⟩ := List.mem_map.1 hold
    cases hvalue : old.2 with
    | arr before =>
      rw [hvalue] at hentries
      obtain rfl := Json.arr.inj hentries
      obtain ⟨entry₀, -, hretain⟩ := List.mem_filterMap.1 hentry
      obtain ⟨hfree, hall⟩ := (retainEntry_retained hretain).free
      rcases hhandler with rfl | hhandler
      · exact hfree
      · exact hall handler hhandler
    | _ => rw [hvalue] at hentries; cases hentries
  · obtain rfl := Json.arr.inj (hentries.symm.trans hempty)
    exact absurd hentry List.not_mem_nil

theorem others_withHooks (root hooks : Fields (Number F)) :
    others (withHooks root hooks) = others (.obj root) :=
  filter_modifyField (fun _ => rfl) _

theorem others_entryOrInsert (fields : Fields (Number F)) (v : Json (Number F)) :
    others (.obj (entryOrInsert "hooks".toList v fields)) = others (.obj fields) :=
  filter_entryOrInsert (fun _ => rfl) v

theorem others_insertField (fields : Fields (Number F)) (v : Json (Number F)) :
    others (.obj (insertField "version".toList v fields)) = others (.obj fields) :=
  filter_insertField (fun _ => rfl) v

theorem isOne_eq {v : Json (Number F)} (h : isOne v = true) : v = .num (.posInt 1) := by
  cases v with
  | num n =>
    cases n with
    | posInt n => exact congrArg (fun k => Json.num (Number.posInt k)) (of_decide_eq_true h)
    | _ => cases h
  | _ => cases h

/-- Members with hooks, as a merge makes them of a document. -/
structure RootOf (doc : Json (Number F)) (root : Fields (Number F)) : Prop where
  present : (root.lookup "hooks".toList).isSome = true
  others : others (.obj root) = others doc
  version : root.lookup "version".toList = doc.get "version" ∨
    doc.get "version" = none ∧ root.lookup "version".toList = some (.num (.posInt 1))
  hooks : ∀ hooks, root.lookup "hooks".toList = some (.obj hooks) → hooksOf doc = hooks

theorem hooks_of_getD {value : Option (Json (Number F))} {hooks : Fields (Number F)}
    (h : value.getD (.obj []) = .obj hooks) : (value.bind asObject).getD [] = hooks := by
  cases value with
  | none => exact Json.obj.inj h
  | some v =>
    obtain rfl : v = .obj hooks := h
    rfl

theorem RootOf.of_obj (fields : Fields (Number F)) :
    RootOf (.obj fields) (entryOrInsert "hooks".toList (.obj []) fields) where
  present := by
    rw [lookup_entryOrInsert_self]
    rfl
  others := filter_entryOrInsert (fun _ => rfl) _
  version := .inl (lookup_entryOrInsert_ne version_ne_hooks _)
  hooks hooks h := by
    rw [lookup_entryOrInsert_self] at h
    exact hooks_of_getD (Option.some.inj h)

theorem EnabledRoot.rootOf {doc : Json (Number F)} {client : Client} {root : Fields (Number F)}
    (h : EnabledRoot client doc root) : RootOf doc root := by
  have hversion := h.version
  have hsome := h.lookup_hooks
  cases h with
  | flat hflat hone hdoc =>
    refine ⟨hsome, ?_, ?_, fun hooks h => ?_⟩
    · rw [others_entryOrInsert, others_insertField]
      rcases hdoc with rfl | ⟨rfl, rfl⟩
      · rfl
      · rfl
    · cases hget : doc.get "version" with
      | none => exact .inr ⟨rfl, (hversion hflat).2⟩
      | some v =>
        exact .inl ((hversion hflat).2.trans (congrArg some (isOne_eq (hone v hget)).symm))
    · rw [lookup_entryOrInsert_self, lookup_insertField_ne version_ne_hooks.symm] at h
      have hhooks := hooks_of_getD (Option.some.inj h)
      rcases hdoc with rfl | ⟨rfl, rfl⟩
      · exact hhooks
      · exact hhooks
  | grouped => exact .of_obj _

theorem RootOf.disabled {doc : Json (Number F)} {root : Fields (Number F)} (h : RootOf doc root)
    {client : Client}
    {hooks left : Fields (Number F)} (hlookup : root.lookup "hooks".toList = some (.obj hooks))
    (htidy : ∀ kv ∈ hooks, Tidy kv.2)
    (hleft : Left client hooks left) : Disabled client doc (withHooks root left) := by
  have hhooks := hooksOf_withHooks h.present left
  refine ⟨fun handler hholds => ?_, ⟨_, ?_, hhooks.symm ▸ hleft.sublist, hhooks.symm ▸ hleft.empty⟩,
    ?_, ?_⟩
  · obtain ⟨kv, hkv, entries, hentries, entry, hentry, hhandler⟩ := hholds
    have hfree := hleft.gone (hhooks ▸ hkv) hentries hentry hhandler
    refine ⟨hfree, fun hproduced => ?_⟩
    rw [(ownedHandler_of_produced hproduced).2 rfl] at hfree
    cases hfree
  · rw [h.hooks hooks hlookup]
    exact forall₂_trimmed htidy
  · rw [others_withHooks, h.others]
  · rw [withHooks, get_obj, lookup_modifyField_ne version_ne_hooks]
    exact h.version

theorem disabled_self {client : Client} {doc : Json (Number F)} (h : doc.get "hooks" = none) :
    Disabled client doc doc := by
  have hnone : hooksOf doc = [] := by rw [hooksOf, h]; rfl
  refine ⟨fun handler hholds => ?_, ⟨[], ?_, ?_, fun kv hkv => ?_⟩, rfl, .inl rfl⟩
  · obtain ⟨kv, hkv, -⟩ := hholds
    rw [hnone] at hkv
    exact absurd hkv List.not_mem_nil
  · rw [hnone]
    exact .nil
  · exact List.nil_sublist _
  · rw [hnone] at hkv
    exact absurd hkv List.not_mem_nil

/-- What was enabled can be disabled. -/
theorem mergeHooks_disable {doc d : Json (Number F)} {client : Client} {hookClient : HookClient}
    {p : HookParams} (h : mergeHooks doc client hookClient p true = .ok d) (q : HookParams) :
    ∃ after, mergeHooks d client hookClient q false = .ok after := by
  obtain ⟨root, hooks, hroot, hlookup, htidy, rfl⟩ := (mergeHooks_iff (not_skipped_enabled doc)).1 h
  have hpresent :=
    lookup_withHooks (hookRoot_enabled.1 hroot).lookup_hooks
    (mergedHooks client hookClient p true hooks)
  have hskip :
      ¬(!false &&
        ((withHooks root (mergedHooks client hookClient p true hooks)).get "hooks").isNone) =
        true := by
    rw [withHooks, get_obj, hpresent]
    exact Bool.false_ne_true
  have hsome := Option.isSome_iff_exists.2 ⟨_, hpresent⟩
  have hself := entryOrInsert_of_some (v := Json.obj []) hsome
  exact ⟨_,
    (mergeHooks_iff hskip).2 ⟨_, _, hookRoot_disabled.2 ⟨_, rfl, hself.symm⟩, hpresent,
      tidy_mergedHooks htidy, rfl⟩⟩

/-- Disabled at once, or after any number of times enabled. -/
theorem disabled_of_run {doc d after : Json (Number F)} {client : Client} {hookClient : HookClient}
    {ps : List HookParams} {q : HookParams} (hrun : enableAll client hookClient ps doc = .ok d)
    (hdisable : mergeHooks d client hookClient q false = .ok after) :
    Disabled client doc after := by
  cases ps with
  | nil =>
    obtain rfl := Except.ok.inj hrun
    by_cases hskip : (!false && (doc.get "hooks").isNone) = true
    · rw [mergeHooks, if_pos hskip] at hdisable
      obtain rfl := Except.ok.inj hdisable
      exact disabled_self (Option.isNone_iff_eq_none.1 hskip)
    · obtain ⟨root, hooks, hroot, hlookup, htidy, rfl⟩ := (mergeHooks_iff hskip).1 hdisable
      obtain ⟨fields, rfl, rfl⟩ := hookRoot_disabled.1 hroot
      exact (RootOf.of_obj fields).disabled hlookup htidy (left_clean client hooks)
  | cons p ps =>
    obtain ⟨p', hmerge⟩ := enableAll_cons hrun
    obtain ⟨root, hooks, hroot, hlookup, htidy, rfl⟩ :=
      (mergeHooks_iff (not_skipped_enabled doc)).1 hmerge
    have hrootOf : RootOf doc root := (hookRoot_enabled.1 hroot).rootOf
    have hpresent := lookup_withHooks hrootOf.present (mergedHooks client hookClient p' true hooks)
    have hskip :
        ¬(!false &&
          ((withHooks root (mergedHooks client hookClient p' true hooks)).get "hooks").isNone) =
          true := by
      rw [withHooks, get_obj, hpresent]
      exact Bool.false_ne_true
    obtain ⟨root', hooks', hroot', hlookup', -, rfl⟩ := (mergeHooks_iff hskip).1 hdisable
    obtain ⟨fields, hfields, rfl⟩ := hookRoot_disabled.1 hroot'
    obtain rfl := Json.obj.inj hfields
    rw [entryOrInsert_of_some (hpresent ▸ rfl)] at hlookup' ⊢
    obtain rfl := Json.obj.inj (Option.some.inj (hpresent.symm.trans hlookup'))
    rw [withHooks_withHooks]
    have hleft :
        Left client hooks
        (mergedHooks client hookClient q false (mergedHooks client hookClient p' true hooks)) := by
      have hfalse :
          mergedHooks client hookClient q false (mergedHooks client hookClient p' true hooks)
          = mapValues (clean client) (mergedHooks client hookClient p' true hooks) := rfl
      rw [hfalse, clean_mergedHooks]
      exact left_ensure (left_clean client hooks) (eventNames hookClient)
    exact hrootOf.disabled hlookup htidy hleft

/-! ### Handlers of other clients -/

/-- A handler stands where no merge for the client takes it out: alone, and no group, or in a group
that is no handler. -/
def Stands (client : Client) (doc handler : Json (Number F)) : Prop :=
  ∃ kv ∈ hooksOf doc, ∃ entries, kv.2 = .arr entries ∧ ∃ entry ∈ entries,
    entry = handler ∧ entry.get "hooks" = none ∨ ownedHandler entry client = false ∧
    handler ∈ handlersOf entry

theorem stands_iff {client : Client} {root : Fields (Number F)}
    (h : (root.lookup "hooks".toList).isSome = true)
    {hooks : Fields (Number F)} {handler : Json (Number F)} :
    Stands client (withHooks root hooks) handler ↔
      ∃ kv ∈ hooks, ∃ entries, kv.2 = .arr entries ∧ ∃ entry ∈ entries,
        entry = handler ∧ entry.get "hooks" = none ∨ ownedHandler entry client = false ∧
        handler ∈ handlersOf entry := by
  rw [Stands, hooksOf_withHooks h]

theorem mem_push (new : List Char × Json (Number F)) {hooks : Fields (Number F)}
    {kv : List Char × Json (Number F)} (h : kv ∈ hooks)
    {entries : List (Json (Number F))} (hentries : kv.2 = .arr entries) :
    ∃ kv' ∈ push hooks new, ∃ more, kv'.2 = .arr (entries ++ more) := by
  rcases mem_modifyField (append new.2) ((sublist_entryOrInsert (.arr [])).subset h)
    with hmem | hmem
  · exact ⟨kv, hmem, [], by rw [List.append_nil, hentries]⟩
  · exact ⟨_, hmem, [new.2], by rw [hentries]; rfl⟩

theorem mem_pushAll (new : List (List Char × Json (Number F))) {hooks : Fields (Number F)}
    {kv : List Char × Json (Number F)}
    (h : kv ∈ hooks) {entries : List (Json (Number F))} (hentries : kv.2 = .arr entries) :
    ∃ kv' ∈ new.foldl push hooks, ∃ more, kv'.2 = .arr (entries ++ more) := by
  induction new generalizing hooks kv entries with
  | nil => exact ⟨kv, h, [], by rw [List.append_nil, hentries]⟩
  | cons x new ih =>
    obtain ⟨kv', hkv', more, hmore⟩ := mem_push x h hentries
    obtain ⟨kv'', hkv'', more', hmore'⟩ := ih hkv' hmore
    exact ⟨kv'', hkv'', more ++ more', by rw [hmore', List.append_assoc]⟩

/-- A merge leaves the handlers that are not owned where they stand. -/
theorem stands_mergeHooks {doc after handler : Json (Number F)} {client : Client}
    {hookClient : HookClient} {p : HookParams}
    {enabled : Bool} (h : mergeHooks doc client hookClient p enabled = .ok after)
    (hfree : ownedHandler handler client = false)
    (hstands : Stands client doc handler) : Stands client after handler := by
  by_cases hskip : (!enabled && (doc.get "hooks").isNone) = true
  · rw [mergeHooks, if_pos hskip] at h
    exact Except.ok.inj h ▸ hstands
  · obtain ⟨root, hooks, hroot, hlookup, htidy, rfl⟩ := (mergeHooks_iff hskip).1 h
    have hrootOf : RootOf doc root := by
      cases enabled with
      | true => exact (hookRoot_enabled.1 hroot).rootOf
      | false =>
        obtain ⟨fields, rfl, rfl⟩ := hookRoot_disabled.1 hroot
        exact .of_obj fields
    obtain ⟨kv, hkv, entries, hentries, entry, hentry, hhandler⟩ := hstands
    rw [hrootOf.hooks hooks hlookup] at hkv
    -- the entry is left, itself or with the handler in it
    have hleft : ∃ entry', retainEntry client entry = some entry' ∧
        (entry' = handler ∧ entry'.get "hooks" = none ∨ ownedHandler entry' client = false ∧
          handler ∈ handlersOf entry') := by
      rcases hhandler with ⟨rfl, hget⟩ | ⟨hown, hmem⟩
      · have hno : handlersOf entry = [] := by rw [handlersOf, hget]; rfl
        exact ⟨entry,
          retainEntry_self hfree (by rw [hno]; exact fun h hh => absurd hh List.not_mem_nil),
            .inl ⟨rfl, hget⟩⟩
      · rcases retainEntry_cases client entry with ⟨-, hdrop | ⟨-, hall⟩⟩ | ⟨entry', hsome, hkept⟩
        · rw [hown] at hdrop
          cases hdrop
        · rw [hall handler hmem] at hfree
          cases hfree
        · exact ⟨entry', hsome, .inr ⟨hkept.free.1, hkept.handlers hmem hfree⟩⟩
    obtain ⟨entry', hretain, hhandler'⟩ := hleft
    have hclean : (kv.1, clean client kv.2) ∈ mapValues (clean client) hooks :=
      List.mem_map.2 ⟨kv, hkv, rfl⟩
    have hvalue : clean client kv.2 = .arr (entries.filterMap (retainEntry client)) := by
      rw [hentries]
      rfl
    have hmem : entry' ∈ entries.filterMap (retainEntry client) :=
      List.mem_filterMap.2 ⟨entry, hentry, hretain⟩
    refine (stands_iff hrootOf.present).2 ?_
    unfold mergedHooks
    split_ifs
    · obtain ⟨kv', hkv', more, hmore⟩ := mem_pushAll (newEntries client hookClient p) hclean hvalue
      exact ⟨kv', hkv', _, hmore, entry', List.mem_append_left _ hmem, hhandler'⟩
    · exact ⟨_, hclean, _, hvalue, entry', hmem, hhandler'⟩

/-- An event whose only entry is a handler of the client. -/
theorem mergeHooks_single {client : Client} {entry : Json (Number F)}
    (hown : ownedHandler entry client = true)
    (hgood : badGroup entry = false) (name : List Char) (hookClient : HookClient) (p : HookParams) :
    mergeHooks (.obj [("hooks".toList, .obj [(name, .arr [entry])])]) client hookClient p false
      = .ok (.obj [("hooks".toList, .obj [(name, .arr [])])]) := by
  have hskip :
      ¬(!false && ((Json.obj [("hooks".toList, .obj [(name, .arr [entry])])]).get "hooks").isNone) =
      true := Bool.false_ne_true
  refine (mergeHooks_iff hskip).2 ⟨[("hooks".toList, .obj [(name, .arr [entry])])],
    [(name, .arr [entry])], rfl, rfl, ?_, ?_⟩
  · intro kv hkv
    obtain rfl := List.mem_singleton.1 hkv
    exact ⟨[entry], rfl, fun e he => List.mem_singleton.1 he ▸ hgood⟩
  · have hnone : [entry].filterMap (retainEntry client) = [] :=
      List.filterMap_cons_none (if_pos hown)
    have hclean : mapValues (clean client) [(name, Json.arr [entry])] = [(name, .arr [])] :=
      congrArg (fun entries => [(name, Json.arr entries)]) hnone
    rw [mergedHooks, if_neg Bool.false_ne_true, hclean]
    rfl

end

end Hook

open Hook

/-- Enabling again is as if it were the first time. Disabling, after any number of times, takes out
the handlers that carry the marker of the client, and groups that hold no others; all else stays as
it was, in its order. A handler of another client stays, unless its entry is such a handler too or a
group that goes. -/
theorem mergeHooks_respects {F : Type} (client : Client) (hookClient : HookClient)
    (doc : Json (Number F)) : (∀ p q d, mergeHooks doc client hookClient p true = .ok d →
      ∃ after, mergeHooks d client hookClient q true = .ok after ∧
        mergeHooks doc client hookClient q true = .ok after) ∧
    (∀ ps q d after, enableAll client hookClient ps doc = .ok d →
      mergeHooks d client hookClient q false = .ok after → Disabled client doc after) ∧
    ∀ p enabled after, mergeHooks doc client hookClient p enabled = .ok after →
      ∀ other ≠ client, ∀ handler, Produced other handler → Stands client doc handler →
      Stands client after handler := by
  refine ⟨fun p q d h => mergeHooks_mergeHooks h q, fun ps q d after hrun h =>
    disabled_of_run hrun h, ?_⟩
  intro p enabled after h other hother handler hproduced hstands
  refine stands_mergeHooks h ?_ hstands
  exact Bool.eq_false_of_not_eq_true fun hown =>
    hother ((ownedHandler_of_produced hproduced).1 hown)

/-- A group of a command of the user, an old handler of the client and one of another client, and a
command of the user alone: enabled and disabled. -/
theorem mergeHooks_respects_mixed :
    let p : HookParams :=
      ⟨"/path with space/solo".toList, "http://localhost/mcp".toList, "TOKEN".toList, .linux⟩
    let user : Json (Number Unit) := .obj [("command".toList, .str "user".toList)]
    let cursor : Json (Number Unit) := newHandler .cursor .sessionStart p
    let group : Json (Number Unit) :=
      .obj [("hooks".toList, .arr [user, newHandler .codex .sessionStart p, cursor])]
    let doc : Json (Number Unit) :=
      .obj [("hooks".toList, .obj [("SessionStart".toList, .arr [group, user])])]
    ∃ d after, mergeHooks doc .codex .codex p true = .ok d ∧
    mergeHooks d .codex .codex p false = .ok after ∧
      Disabled .codex doc after ∧ Stands .codex after cursor := by
  intro p user cursor group doc
  let hooks : Fields (Number Unit) := [("SessionStart".toList, .arr [group, user])]
  have htidy : ∀ kv ∈ hooks, Tidy kv.2 := by
    intro kv hkv
    obtain rfl := List.mem_singleton.1 hkv
    refine ⟨_, rfl, fun entry hentry => ?_⟩
    rcases List.mem_pair.1 hentry with rfl | rfl <;> rfl
  have hmerge : mergeHooks doc .codex .codex p true
      = .ok (withHooks [("hooks".toList, .obj hooks)] (mergedHooks .codex .codex p true hooks)) :=
    (mergeHooks_iff (not_skipped_enabled doc)).2 ⟨[("hooks".toList, .obj hooks)], hooks, rfl, rfl,
      htidy, rfl⟩
  obtain ⟨after, hafter⟩ := mergeHooks_disable hmerge p
  have hrun : enableAll .codex .codex [p] doc
      = .ok (withHooks [("hooks".toList, .obj hooks)]
        (mergedHooks .codex .codex p true hooks)) := by
    rw [enableAll, hmerge]
    rfl
  have hproduced : Produced .cursor cursor := produced_newHandler .cursor .sessionStart p
  have hstands : Stands .codex doc cursor :=
    ⟨_, List.mem_singleton_self _, _, rfl, group, List.mem_cons_self,
      .inr ⟨rfl, List.mem_cons_of_mem _ (List.mem_cons_of_mem _ List.mem_cons_self)⟩⟩
  obtain ⟨-, hdisabled, hothers⟩ := mergeHooks_respects .codex .codex doc
  have henabled := hothers p true _ hmerge .cursor (by decide) cursor hproduced hstands
  exact ⟨_, after, hmerge, hafter, hdisabled [p] p _ after hrun hafter,
    (mergeHooks_respects .codex .codex _).2.2 p false after hafter .cursor (by decide)
      cursor hproduced henabled⟩

/-- A command of the user that carries the marker, and a handler of another client in an entry that
is one of this client. -/
theorem mergeHooks_takes :
    let p : HookParams := ⟨"solo".toList, "http://localhost/mcp".toList, "TOKEN".toList, .linux⟩
    let left : Json (Number Unit) :=
      .obj [("hooks".toList, .obj [("SessionStart".toList, .arr [])])]
    let user : Json (Number Unit) :=
      .obj [("command".toList, .str ("echo ".toList ++ ownedText .codex))]
    let cursor : Json (Number Unit) := newHandler .cursor .sessionStart p
    let both : Json (Number Unit) :=
      .obj [("command".toList, .str (hookCommand p.exe .codex .prompt p.url p.tokenEnv p.os)),
        ("hooks".toList, .arr [cursor])]
    ((∀ client, ¬Produced client user) ∧ handlersOf user = [] ∧
      mergeHooks (.obj [("hooks".toList, .obj [("SessionStart".toList, .arr [user])])])
        .codex .codex p false = .ok left) ∧
    Produced .cursor cursor ∧
    Holds (.obj [("hooks".toList, .obj [("SessionStart".toList, .arr [both])])]) cursor ∧
      mergeHooks (.obj [("hooks".toList, .obj [("SessionStart".toList, .arr [both])])])
      .codex .codex p false = .ok left ∧ ¬Holds left cursor := by
  intro p left user cursor both
  have hproduced : Produced .cursor cursor := produced_newHandler .cursor .sessionStart p
  have hproduced' : Produced .codex both := ⟨p.exe, .prompt, p.url, p.tokenEnv, p.os, rfl⟩
  have hboth : ownedHandler both .codex = true := (ownedHandler_of_produced hproduced').2 rfl
  refine ⟨⟨fun client hproduced => ?_, rfl, ?_⟩, hproduced, ?_, mergeHooks_single hboth rfl _ _ p,
    ?_⟩
  · obtain ⟨exe, event, url, tokenEnv, os, hcommand⟩ := hproduced
    have hhead := congrArg List.head? (Json.str.inj (Option.some.inj hcommand))
    rcases head_hookCommand exe client event url tokenEnv os with h | h
    · rw [h] at hhead
      exact absurd hhead (by decide)
    · rw [h] at hhead
      exact absurd hhead (by decide)
  · have hstrip : commandText ("echo ".toList ++ ownedText .codex) =
        some ("echo ".toList ++ ownedText .codex) := rfl
    have hget : user.get "command" = some (.str ("echo ".toList ++ ownedText .codex)) := rfl
    refine mergeHooks_single ?_ rfl _ _ p
    rw [ownedHandler, hget, Option.bind_some, asStr, Option.bind_some, hstrip, Option.any_some,
      contains_iff, String.toList_ofList]
    exact (List.suffix_append _ _).isInfix
  · exact ⟨_, List.mem_singleton_self _, _, rfl, both, List.mem_singleton_self _,
      .inr (List.mem_singleton_self _)⟩
  · rintro ⟨kv, hkv, entries, hentries, entry, hentry, -⟩
    obtain rfl := List.mem_singleton.1 hkv
    obtain rfl := Json.arr.inj hentries
    exact absurd hentry List.not_mem_nil

end Solo
