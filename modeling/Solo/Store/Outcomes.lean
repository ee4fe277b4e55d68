import Solo.Store.AuditedWrites
import Solo.Store.Session

/-!
# What a write's reply says about its rows and its audit events

After the commit of a single `Remember` or `Update` the vector still has to enter the index. When
the index refuses it the reply is `Err` although the rows are there, with an `Ok` event in the audit
log and an `Error` event behind it. A write over quota has a `Forbidden` event from the handler and
an `Error` event from the dispatcher. `err_unchanged_iff` and `auditOutcome_iff`: these are the only
ways.
-/

namespace Solo

/-- The index takes an embedding of its dimension and of type F32. -/
def IndexTakes (ix : HnswIndex) (emb : Embedding) : Prop := emb.dtype = .f32 ∧ emb.dim = ix.dim

theorem asF32Slice_of_valid {emb : Embedding} (hv : emb.valid = true) (hd : emb.dtype = .f32) :
    ∃ v, emb.asF32Slice = some v ∧ v.length = emb.dim := by
  have hlen : emb.data.length = 4 * emb.dim := by
    simpa [Embedding.valid, hd, EmbeddingDtype.bytesForDim] using hv
  obtain ⟨v, hv, hvl⟩ := castF32_of_length hlen
  exact ⟨v, by rw [Embedding.asF32Slice, if_pos hd, hv], hvl⟩

theorem dtype_of_asF32Slice {emb : Embedding} {v : Vector} (h : emb.asF32Slice = some v) :
    emb.dtype = .f32 := by
  unfold Embedding.asF32Slice at h
  split at h
  · next hd => exact hd
  · cases h

theorem length_of_asF32Slice {emb : Embedding} {v : Vector} (hv : emb.valid = true)
    (h : emb.asF32Slice = some v) : v.length = emb.dim := by
  obtain ⟨w, hw, hlen⟩ := asF32Slice_of_valid hv (dtype_of_asF32Slice h)
  obtain rfl := Option.some.inj (h.symm.trans hw)
  exact hlen

theorem add_episode {ix : HnswIndex} {r : Rowid} {v : Vector} :
    (∃ ix', ix.add (episodeHnswId r.toI64) v = .ok ix') ↔ v.length = ix.dim := by
  rw [HnswIndex.add_isOk, episodeHnswId_msb]
  simp

namespace AuditedLibrary

variable {s : AuditedLibrary} {env : WriterEnv} {ep : NewEpisode} {content : String}
  {emb : Embedding}
  {principal : Option String} {m : MemoryId} {out : AuditedLibrary × Except Error MemoryId}

/-! ### The exits of the handlers -/

/-- Neither the quota nor anything else. -/
def NotForbidden (e : Error) : Prop := ∀ m, e ≠ .forbidden m

def OverQuota (env : WriterEnv) (content : String) (emb : Embedding) : Prop :=
  emb.valid = true ∧ env.checkQuota (episodeGrowth content emb) ≠ none

/-- The transaction of `Remember` is reached and commits. -/
def RememberCommits (s : AuditedLibrary) (env : WriterEnv) (ep : NewEpisode) (content : String)
    (emb : Embedding) (principal : Option String) (store : Store) (rowid : Rowid) : Prop :=
  emb.valid = true ∧ env.checkQuota (episodeGrowth content emb) = none ∧ env.fault = none ∧
    rememberRow env.cfg env.nowMs principal s.lib.store (ep, emb) = .ok (store, rowid)

/-- How `handle_remember_durable` ends. -/
inductive RememberExit (s : AuditedLibrary) (env : WriterEnv) (ep : NewEpisode) (content : String)
    (emb : Embedding) (principal : Option String) : AuditedLibrary × Except Error MemoryId → Prop
  | rejected (e : Error) (quota : ¬ OverQuota env content emb)
      (rows : ∀ store rowid, ¬ s.RememberCommits env ep content emb principal store rowid)
      (he : NotForbidden e) : RememberExit s env ep content emb principal (s, .error e)
  | overQuota (err : QuotaExceededError) (quota : OverQuota env content emb) :
      RememberExit s env ep content emb principal
        (s.emit ⟨env.nowMs, principal, .memoryRemember, some ep.memoryId, .forbidden,
          some err.details⟩, .error (.forbidden err.message))
  | refused (e : Error) (store : Store) (rowid : Rowid)
      (rows : s.RememberCommits env ep content emb principal store rowid)
      (index : ¬ IndexTakes s.lib.hnsw emb) (he : NotForbidden e) :
      RememberExit s env ep content emb principal
      (s.remembered env store ep.memoryId content principal, .error e)
  | indexed (store : Store) (rowid : Rowid) (hnsw : HnswIndex)
      (rows : s.RememberCommits env ep content emb principal store rowid)
      (index : IndexTakes s.lib.hnsw emb) : RememberExit s env ep content emb principal
        ({ s.remembered env store ep.memoryId content principal with lib := { s.lib with store, hnsw } },
          .ok ep.memoryId)

/-- A computation whose errors are none of the quota's. -/
def NeverForbidden {α : Type} (x : Except Error α) : Prop := ∀ e, x = .error e → NotForbidden e

theorem neverForbidden_ok {α : Type} (a : α) : NeverForbidden (.ok a : Except Error α) := by
  rintro e ⟨⟩

theorem neverForbidden_orStorage {α : Type} (context : String) (x : Option α) :
    NeverForbidden (orStorage context x) := by
  rintro e he m rfl
  cases x <;> cases he

theorem NeverForbidden.bind {α β : Type} {x : Except Error α} {f : α → Except Error β}
    (hx : NeverForbidden x) (hf : ∀ a, NeverForbidden (f a)) : NeverForbidden (x >>= f) := by
  intro e he
  cases x with
  | error e' =>
    obtain rfl : e' = e := by simpa [Bind.bind, Except.bind] using he
    exact hx _ rfl
  | ok a => exact hf a e he

theorem neverForbidden_rememberRow (cfg : Config) (nowMs : Int) (principal : Option String)
    (st : Store)
    (item : NewEpisode × Embedding) : NeverForbidden (rememberRow cfg nowMs principal st item) :=
  (neverForbidden_orStorage _ _).bind fun _ => (neverForbidden_orStorage _ _).bind fun _ =>
    (neverForbidden_orStorage _ _).bind fun _ => (neverForbidden_orStorage _ _).bind fun _ =>
      neverForbidden_ok _

theorem handleRememberDurable_exit :
    RememberExit s env ep content emb principal
    (s.handleRememberDurable env ep content emb principal) := by
  unfold handleRememberDurable
  cases hv : emb.valid with
  | false =>
    refine .rejected _ (fun h => ?_) (fun store rowid h => ?_) (by rintro m ⟨⟩)
    · exact absurd h.1 (by simp [hv])
    · exact absurd h.1 (by simp [hv])
  | true =>
    simp only [Bool.not_true, Bool.false_eq_true, if_false]
    cases hq : env.checkQuota (episodeGrowth content emb) with
    | some err => exact .overQuota err ⟨hv, by simp [hq]⟩
    | none =>
      have hquota : ¬ OverQuota env content emb := fun h => h.2 hq
      dsimp only
      cases hf : env.fault with
      | some context =>
        exact .rejected _ hquota (fun store rowid h => absurd (hf.symm.trans h.2.2.1) (by simp))
          (by rintro m ⟨⟩)
      | none =>
        cases hr : rememberRow env.cfg env.nowMs principal s.lib.store (ep, emb) with
        | error e =>
          exact .rejected e hquota (fun store rowid h => absurd (hr.symm.trans h.2.2.2) (by simp))
            (neverForbidden_rememberRow _ _ _ _ _ e hr)
        | ok p =>
          obtain ⟨store, rowid⟩ := p
          have hrows : s.RememberCommits env ep content emb principal store rowid :=
            ⟨hv, hq, hf, hr⟩
          dsimp only
          cases hs : emb.asF32Slice with
          | none =>
            refine .refused _ store rowid hrows (fun hi => ?_) (by rintro m ⟨⟩)
            obtain ⟨v, hv, -⟩ := asF32Slice_of_valid hv hi.1
            rw [hs] at hv
            cases hv
          | some v =>
            have hdtype := dtype_of_asF32Slice hs
            have hlen := length_of_asF32Slice hv hs
            dsimp only
            cases ha : (s.remembered env store ep.memoryId content principal).lib.hnsw.add
                (episodeHnswId rowid.toI64) v with
            | error e =>
              refine .refused _ store rowid hrows (fun hi => ?_) (by rintro m ⟨⟩)
              obtain ⟨ix', hix⟩ := add_episode.2 (hlen.trans hi.2)
              exact absurd (hix.symm.trans ha) (by simp)
            | ok hnsw =>
              exact .indexed store rowid hnsw hrows
                ⟨hdtype, hlen.symm.trans (add_episode.1 ⟨hnsw, ha⟩)⟩

/-! ### Rows -/

/-- The rows of the tables that a single write changes. -/
structure SameRows (s s' : AuditedLibrary) : Prop where
  episodes : s'.lib.store.episodes = s.lib.store.episodes
  texts : s'.texts = s.texts
  embeddings : s'.lib.store.embeddings = s.lib.store.embeddings
  pendingIndex : s'.lib.store.pendingIndex = s.lib.store.pendingIndex

theorem SameRows.refl : SameRows s s := ⟨rfl, rfl, rfl, rfl⟩

/-- A committed `Remember` is a new row. -/
theorem RememberCommits.episodes_ne {store : Store} {rowid : Rowid}
    (h : s.RememberCommits env ep content emb principal store rowid) :
    store.episodes ≠ s.lib.store.episodes := by
  have hrow := h.2.2.2
  unfold rememberRow at hrow
  simp only [Result.bind_eq_ok, orStorage_eq_ok, Result.pure_eq_ok, Prod.mk.injEq] at hrow
  obtain ⟨r, -, episodes, hepisodes, ems, -, pend, -, rfl, -⟩ := hrow
  intro heq
  have hrows := congrArg List.length (Table.insert?_rows hepisodes)
  have hsame : episodes.rows = s.lib.store.episodes.rows := congrArg Table.rows heq
  rw [hsame, List.length_append, List.length_singleton] at hrows
  omega

theorem remember_errUnchanged_iff :
    (∀ e, (s.dispatchRemember env ep content emb principal).2 = .error e →
      SameRows s (s.dispatchRemember env ep content emb principal).1) ↔
    ∀ store rowid, s.RememberCommits env ep content emb principal store rowid →
    IndexTakes s.lib.hnsw emb := by
  unfold dispatchRemember
  generalize hout : s.handleRememberDurable env ep content emb principal = out
  have hexit : RememberExit s env ep content emb principal out :=
    hout ▸ handleRememberDurable_exit
  cases hexit with
  | rejected e quota rows he =>
    exact ⟨fun _ store rowid h => absurd h (rows store rowid), fun _ _ _ => ⟨rfl, rfl, rfl, rfl⟩⟩
  | overQuota err quota =>
    exact ⟨fun _ store rowid h => absurd h.2.1 quota.2, fun _ _ _ => ⟨rfl, rfl, rfl, rfl⟩⟩
  | refused e store rowid rows index he =>
    refine ⟨fun h => absurd (h e rfl).episodes rows.episodes_ne,
      fun h => absurd (h store rowid rows) index⟩
  | indexed store rowid hnsw rows index =>
    exact ⟨fun _ _ _ _ => index, by rintro - e ⟨⟩⟩

/-- The transaction of `Update` is reached and commits. -/
def UpdateCommits (s : AuditedLibrary) (env : WriterEnv) (m : MemoryId) (content : String)
    (emb : Embedding) (store : Store) (rowid : Rowid) : Prop :=
  emb.valid = true ∧ emb.dtype = .f32 ∧ Text.isBlank content = false ∧ env.fault = none ∧
    updateRows env.cfg env.nowMs s.lib.store m emb = .ok (store, rowid)

/-- How `handle_update_durable` ends. -/
inductive UpdateExit (s : AuditedLibrary) (env : WriterEnv) (m : MemoryId) (content : String)
    (emb : Embedding)
    (principal : Option String) : AuditedLibrary × Except Error (MemoryId × Rowid) → Prop
  | rejected (e : Error) (rows : ∀ store rowid, ¬ s.UpdateCommits env m content emb store rowid) :
      UpdateExit s env m content emb principal (s, .error e)
  | refused (e : Error) (store : Store) (rowid : Rowid) (rows :
    s.UpdateCommits env m content emb store rowid)
      (index : emb.dim ≠ s.lib.hnsw.dim) :
      UpdateExit s env m content emb principal (s.updated env store m (Text.trim content) principal,
        .error e)
  | indexed (store : Store) (rowid : Rowid) (hnsw : HnswIndex) (rows :
    s.UpdateCommits env m content emb store rowid)
      (index : emb.dim = s.lib.hnsw.dim) :
      UpdateExit s env m content emb principal
        ({ s.updated env store m (Text.trim content) principal with lib := { s.lib with store, hnsw } },
          .ok (m, rowid))

theorem handleUpdateDurable_exit :
    UpdateExit s env m content emb principal
    (s.handleUpdateDurable env m content emb principal) := by
  unfold handleUpdateDurable
  cases hv : emb.valid with
  | false => exact .rejected _ fun store rowid h => absurd (hv.symm.trans h.1) (by simp)
  | true =>
    simp only [Bool.not_true, Bool.false_eq_true, if_false]
    cases hs : emb.asF32Slice with
    | none =>
      refine .rejected _ fun store rowid h => ?_
      obtain ⟨v, hv, -⟩ := asF32Slice_of_valid hv h.2.1
      exact absurd (hs.symm.trans hv) (by simp)
    | some v =>
      have hdtype := dtype_of_asF32Slice hs
      have hlen := length_of_asF32Slice hv hs
      dsimp only
      cases hb : Text.isBlank content with
      | true => exact .rejected _ fun store rowid h => absurd (hb.symm.trans h.2.2.1) (by simp)
      | false =>
        simp only [Bool.false_eq_true, if_false]
        cases hf : env.fault with
        | some context =>
          exact .rejected _ fun store rowid h => absurd (hf.symm.trans h.2.2.2.1) (by simp)
        | none =>
          cases hr : updateRows env.cfg env.nowMs s.lib.store m emb with
          | error e =>
            exact .rejected e fun store rowid h => absurd (hr.symm.trans h.2.2.2.2) (by simp)
          | ok p =>
            obtain ⟨store, rowid⟩ := p
            have hrows : s.UpdateCommits env m content emb store rowid := ⟨hv, hdtype, hb, hf, hr⟩
            dsimp only
            cases ha : (s.updated env store m (Text.trim content) principal).lib.hnsw.add
              (episodeHnswId rowid.toI64) v with
            | error e =>
              refine .refused _ store rowid hrows fun hi => ?_
              obtain ⟨ix', hix⟩ := add_episode.2 (hlen.trans hi)
              exact absurd (hix.symm.trans ha) (by simp)
            | ok hnsw =>
              exact .indexed store rowid hnsw hrows (hlen.symm.trans (add_episode.1 ⟨hnsw, ha⟩))

/-- The rows already are what the update writes. -/
def AlreadyWritten (s : AuditedLibrary) (env : WriterEnv) (store : Store) (m : MemoryId)
    (content : String) (principal : Option String) : Prop :=
  SameRows s (s.updated env store m (Text.trim content) principal)

theorem update_errUnchanged_iff :
    (∀ e, (s.dispatchUpdate env m content emb principal).2 = .error e →
      SameRows s (s.dispatchUpdate env m content emb principal).1) ↔
    ∀ store rowid, s.UpdateCommits env m content emb store rowid →
      emb.dim = s.lib.hnsw.dim ∨ s.AlreadyWritten env store m content principal := by
  unfold dispatchUpdate
  generalize hout : s.handleUpdateDurable env m content emb principal = out
  have hexit : UpdateExit s env m content emb principal out := hout ▸ handleUpdateDurable_exit
  cases hexit with
  | rejected e rows =>
    exact ⟨fun _ store rowid h => absurd h (rows store rowid), fun _ _ _ => ⟨rfl, rfl, rfl, rfl⟩⟩
  | refused e store rowid rows index =>
    have hunique {store' : Store} {rowid' : Rowid}
        (h : s.UpdateCommits env m content emb store' rowid') :
        store' = store := (Prod.mk.inj (Except.ok.inj (h.2.2.2.2.symm.trans rows.2.2.2.2))).1
    constructor
    · intro h store' rowid' hrows
      obtain rfl := hunique hrows
      obtain ⟨he, ht, hem, hp⟩ := h e rfl
      exact .inr ⟨he, ht, hem, hp⟩
    · intro h e' _
      obtain ⟨he, ht, hem, hp⟩ := (h store rowid rows).resolve_left index
      exact ⟨he, ht, hem, hp⟩
  | indexed store rowid hnsw rows index =>
    exact ⟨fun _ _ _ _ => .inl index, by rintro - e ⟨⟩⟩

end AuditedLibrary

open AuditedLibrary

inductive SingleWrite
  | remember (ep : NewEpisode) (content : String) (emb : Embedding) (principal : Option String)
  | update (m : MemoryId) (content : String) (emb : Embedding) (principal : Option String)

namespace SingleWrite

/-- The state after the command, and whether it answers `Ok`. -/
def run (s : AuditedLibrary) (env : WriterEnv) : SingleWrite → AuditedLibrary × Except Error Unit
  | .remember ep content emb principal =>
    let out := s.dispatchRemember env ep content emb principal
    (out.1, out.2.map fun _ => ())
  | .update m content emb principal =>
    let out := s.dispatchUpdate env m content emb principal
    (out.1, out.2.map fun _ => ())

/-- If the transaction commits, the index takes the vector. -/
def IndexedIfCommitted (s : AuditedLibrary) (env : WriterEnv) : SingleWrite → Prop
  | .remember ep content emb principal =>
    ∀ store rowid, s.RememberCommits env ep content emb principal store rowid →
      IndexTakes s.lib.hnsw emb
  | .update m content emb principal =>
    ∀ store rowid, s.UpdateCommits env m content emb store rowid →
      emb.dim = s.lib.hnsw.dim ∨ s.AlreadyWritten env store m content principal

end SingleWrite

theorem map_eq_error {α β : Type} {x : Except Error α} {f : α → β} {e : Error} :
    x.map f = .error e ↔ x = .error e := by
  cases x <;> simp [Except.map]

/-- A single write that answers `Err` has changed no row, exactly when the index takes what was
committed. -/
theorem err_unchanged_iff (s : AuditedLibrary) (env : WriterEnv) (w : SingleWrite) :
    (∀ e, (w.run s env).2 = .error e → SameRows s (w.run s env).1) ↔
    w.IndexedIfCommitted s env := by
  cases w with
  | remember ep content emb principal =>
    simp only [SingleWrite.run, map_eq_error]
    exact remember_errUnchanged_iff
  | update m content emb principal =>
    simp only [SingleWrite.run, map_eq_error]
    exact update_errUnchanged_iff

namespace HalfPrecision

def env : WriterEnv where
  cfg := Session.cfgOne
  nowMs := 5
  quotaBytes := none
  dbSize := 0
  redact := fun text => (text, [])
  fault := none
  drains := fun _ => true

def state : AuditedLibrary := ⟨.new Session.cfgOne, fun _ => none, []⟩

/-- A valid F16 embedding of the index's dimension. -/
def remember : SingleWrite := .remember ⟨"m", 1, .hot⟩ "text" ⟨.f16, 1, [0, 0]⟩ none

theorem committed : ∃ store rowid, state.RememberCommits env ⟨"m", 1, .hot⟩ "text" ⟨.f16, 1, [0, 0]⟩
    none store rowid :=
  ⟨_, _, rfl, rfl, rfl, rfl⟩

end HalfPrecision

open HalfPrecision in
theorem halfPrecision_changed :
    ¬ ∀ e, (remember.run state env).2 = .error e → SameRows state (remember.run state env).1 := by
  rw [err_unchanged_iff]
  intro h
  obtain ⟨store, rowid, hrows⟩ := committed
  have hdtype := (h store rowid hrows).1
  cases hdtype

end Solo
