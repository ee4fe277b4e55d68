import Mathlib.Data.List.Basic
import Mathlib.Data.List.Infix
import Solo.Lib.Slug

/-!
# Replacing texts, one after another

`str::replace` goes over a text once and replaces what it finds from left to right. A chain of
replacements that all make a text shorter leaves a text alone exactly where none of the patterns
occurs in it. Texts written with entities, `&name;`, are decoded by such a chain, entity by entity.
-/

namespace Replace

variable {pat rep s t : List Char}

/-- The replacement, with the number of characters still to be skipped of an occurrence. -/
def from? (pat rep : List Char) : ℕ → List Char → List Char
  | _, [] => []
  | skip + 1, _ :: cs => from? pat rep skip cs
  | 0, c :: cs =>
    if pat.isPrefixOf (c :: cs) then rep ++ from? pat rep (pat.length - 1) cs
    else c :: from? pat rep 0 cs

/-- `str::replace`, for a pattern that is not empty. -/
def replace (pat rep : List Char) (s : List Char) : List Char := from? pat rep 0 s

theorem replace_nil : replace pat rep [] = [] := rfl

theorem from?_append (s t : List Char) : from? pat rep s.length (s ++ t) = from? pat rep 0 t := by
  induction s with
  | nil => rfl
  | cons c s ih => exact ih

theorem replace_match (hpat : pat ≠ []) : replace pat rep (pat ++ t) = rep ++
    replace pat rep t := by
  obtain ⟨c, p, rfl⟩ := List.exists_cons_of_ne_nil hpat
  have hpre : (c :: p).isPrefixOf (c :: p ++ t) = true :=
    List.isPrefixOf_iff_prefix.2 (List.prefix_append _ _)
  unfold replace
  rw [List.cons_append] at hpre ⊢
  rw [from?, if_pos hpre]
  exact congrArg (rep ++ ·) (from?_append p t)

theorem replace_skip {c : Char} (h : ¬ pat <+: c :: t) :
    replace pat rep (c :: t) = c :: replace pat rep t := by
  unfold replace
  rw [from?, if_neg (mt List.isPrefixOf_iff_prefix.1 h)]

/-- A text is empty, begins with the pattern, or begins with another character. -/
theorem induction {motive : List Char → Prop} (hpat : pat ≠ []) (nil : motive [])
    (found : ∀ t, motive t → motive (pat ++ t))
    (skip : ∀ c t, ¬ pat <+: c :: t → motive t → motive (c :: t)) (s : List Char) : motive s := by
  induction hn : s.length using Nat.strongRecOn generalizing s with
  | ind n ih =>
    subst hn
    by_cases hpre : pat <+: s
    · obtain ⟨t, rfl⟩ := hpre
      have hlt : t.length < (pat ++ t).length := by
        rw [List.length_append]
        have := List.length_pos_iff.2 hpat
        omega
      exact found t (ih t.length hlt t rfl)
    · cases s with
      | nil => exact nil
      | cons c t => exact skip c t hpre (ih t.length (Nat.lt_succ_self _) t rfl)

theorem length_replace_le (hpat : pat ≠ []) (hrep : rep.length < pat.length) (s : List Char) :
    (replace pat rep s).length ≤ s.length := by
  induction s using induction hpat with
  | nil => exact Nat.le_refl _
  | found t ih =>
    rw [replace_match hpat, List.length_append, List.length_append]
    omega
  | skip c t h ih =>
    rw [replace_skip h]
    exact Nat.succ_le_succ ih

/-- A replacement by something shorter leaves a text alone if the pattern does not occur, and makes
it shorter otherwise. -/
theorem replace_cases (hpat : pat ≠ []) (hrep : rep.length < pat.length) (s : List Char) :
    (¬ pat <:+: s ∧ replace pat rep s = s) ∨
    (pat <:+: s ∧ (replace pat rep s).length < s.length) := by
  induction s using induction hpat with
  | nil => exact .inl ⟨fun h => hpat (List.infix_nil.1 h), rfl⟩
  | found t ih =>
    refine .inr ⟨(List.prefix_append pat t).isInfix, ?_⟩
    rw [replace_match hpat, List.length_append, List.length_append]
    have := length_replace_le hpat hrep t
    omega
  | skip c t h ih =>
    rw [replace_skip h, List.infix_cons_iff]
    rcases ih with ⟨hnot, heq⟩ | ⟨hin, hlt⟩
    · exact .inl ⟨not_or.2 ⟨h, hnot⟩, by rw [heq]⟩
    · exact .inr ⟨.inr hin, Nat.succ_lt_succ hlt⟩

/-- The replacements of a chain, in turn. -/
def chain (steps : List (List Char × List Char)) (s : List Char) : List Char :=
  steps.foldl (fun s step => replace step.1 step.2 s) s

/-- Each replacement makes a text shorter. -/
def Shortening (steps : List (List Char × List Char)) : Prop :=
  ∀ step ∈ steps, step.1 ≠ [] ∧ step.2.length < step.1.length

theorem chain_cons (step : List Char × List Char) (steps : List (List Char × List Char))
    (s : List Char) : chain (step :: steps) s = chain steps (replace step.1 step.2 s) := rfl

theorem chain_append (steps steps' : List (List Char × List Char)) (s : List Char) :
    chain (steps ++ steps') s = chain steps' (chain steps s) := List.foldl_append ..

theorem length_chain_le {steps : List (List Char × List Char)} (h : Shortening steps)
    (s : List Char) : (chain steps s).length ≤ s.length := by
  induction steps generalizing s with
  | nil => exact Nat.le_refl _
  | cons step steps ih =>
    obtain ⟨hpat, hrep⟩ := h step List.mem_cons_self
    exact (ih (fun x hx => h x (List.mem_cons_of_mem _ hx)) _).trans (length_replace_le hpat hrep s)

/-- A chain leaves a text alone if no pattern occurs, and makes it shorter otherwise. -/
theorem chain_cases {steps : List (List Char × List Char)} (h : Shortening steps) (s : List Char) :
    ((∀ step ∈ steps, ¬ step.1 <:+: s) ∧ chain steps s = s) ∨
      ((∃ step ∈ steps, step.1 <:+: s) ∧ (chain steps s).length < s.length) := by
  induction steps generalizing s with
  | nil => exact .inl ⟨fun x hx => absurd hx List.not_mem_nil, rfl⟩
  | cons step steps ih =>
    obtain ⟨hpat, hrep⟩ := h step List.mem_cons_self
    have hrest : Shortening steps := fun x hx => h x (List.mem_cons_of_mem _ hx)
    rw [chain_cons, List.forall_mem_cons]
    rcases replace_cases hpat hrep s with ⟨hnot, heq⟩ | ⟨hin, hlt⟩
    · rw [heq]
      rcases ih hrest s with ⟨hnone, hsame⟩ | ⟨⟨x, hx, hxs⟩, hshorter⟩
      · exact .inl ⟨⟨hnot, hnone⟩, hsame⟩
      · exact .inr ⟨⟨x, List.mem_cons_of_mem _ hx, hxs⟩, hshorter⟩
    · exact .inr ⟨⟨step, List.mem_cons_self, hin⟩, (length_chain_le hrest _).trans_lt hlt⟩

theorem chain_eq_self_iff {steps : List (List Char × List Char)} (h : Shortening steps)
    {s : List Char} : chain steps s = s ↔ ∀ step ∈ steps, ¬ step.1 <:+: s := by
  rcases chain_cases h s with ⟨hnone, hsame⟩ | ⟨⟨x, hx, hxs⟩, hlt⟩
  · exact iff_of_true hsame hnone
  · exact iff_of_false (fun hsame => absurd hlt (by rw [hsame]; exact Nat.lt_irrefl _)) fun hnone =>
      hnone x hx hxs

theorem chain_eq_of_length {steps : List (List Char × List Char)} (h : Shortening steps)
    {s : List Char} (hlength : s.length ≤ (chain steps s).length) : chain steps s = s := by
  rcases chain_cases h s with ⟨-, hsame⟩ | ⟨-, hlt⟩
  · exact hsame
  · exact absurd hlt (Nat.not_lt.2 hlength)

theorem chain_eq_nil {steps : List (List Char × List Char)}
    (h : ∀ step ∈ steps, step.1 ≠ [] ∧ step.2 ≠ []) (hnil : chain steps s = []) : s = [] := by
  induction steps generalizing s with
  | nil => exact hnil
  | cons step steps ih =>
    obtain ⟨hpat, hrep⟩ := h step List.mem_cons_self
    have hstep : replace step.1 step.2 s = [] :=
      ih (fun x hx => h x (List.mem_cons_of_mem _ hx)) hnil
    by_cases hfound : step.1 <+: s
    · obtain ⟨t, rfl⟩ := hfound
      rw [replace_match hpat] at hstep
      exact absurd (List.append_eq_nil_iff.1 hstep).1 hrep
    · cases s with
      | nil => rfl
      | cons c t =>
        rw [replace_skip hfound] at hstep
        cases hstep

/-! ### Entities -/

/-- A name between `&` and `;`. -/
def IsEntity (e : List Char) : Prop := ∃ name, e = '&' :: (name ++ [';']) ∧ '&' ∉ name ∧ ';' ∉ name

theorem IsEntity.ne_nil {e : List Char} (h : IsEntity e) : e ≠ [] := by
  obtain ⟨name, rfl, -, -⟩ := h
  exact List.cons_ne_nil _ _

/-- No entity is the beginning of another one. -/
theorem IsEntity.prefix_eq {e e' : List Char} (h : IsEntity e) (h' : IsEntity e')
    (hpre : e <+: e' ++ t) : e = e' := by
  obtain ⟨name, rfl, -, hname⟩ := h
  obtain ⟨name', rfl, -, hname'⟩ := h'
  obtain ⟨u, hu⟩ := hpre
  rw [List.cons_append, List.cons_append, List.append_assoc, List.append_assoc] at hu
  rw [Text.eq_of_append_cons hname hname' (List.cons.inj hu).2]

/-- Entities are not found within the rest of one. -/
theorem replace_tail (hpat : ∃ p, pat = '&' :: p) (w t : List Char) (hw : '&' ∉ w) :
    replace pat rep (w ++ t) = w ++ replace pat rep t := by
  obtain ⟨p, rfl⟩ := hpat
  induction w with
  | nil => rfl
  | cons c w ih =>
    rw [List.mem_cons, not_or] at hw
    have hskip : ¬ '&' :: p <+: c :: (w ++ t) := fun hpre => hw.1 (List.cons_prefix_cons.1 hpre).1
    rw [List.cons_append, replace_skip hskip, ih hw.2]
    rfl

/-- A replacement passes over another entity. -/
theorem replace_entity {e e' : List Char} (h : IsEntity e) (h' : IsEntity e') (hne : e ≠ e')
    (t : List Char) :
    replace e rep (e' ++ t) = e' ++ replace e rep t := by
  have hskip : ¬ e <+: e' ++ t := fun hpre => hne (h.prefix_eq h' hpre)
  have hshape : ∃ p, e = '&' :: p := by
    obtain ⟨name, rfl, -, -⟩ := h
    exact ⟨_, rfl⟩
  obtain ⟨name', rfl, hamp, -⟩ := h'
  have hrest : '&' ∉ name' ++ [';'] := by
    rw [List.mem_append, not_or]
    exact ⟨hamp, by decide⟩
  rw [List.cons_append] at hskip ⊢
  rw [replace_skip hskip, replace_tail hshape _ _ hrest]
  rfl

/-- Each of the listed characters written as its entity. -/
def escapeChar (table : List (Char × List Char)) (c : Char) : List Char := (table.lookup c).getD [c]

def escape (table : List (Char × List Char)) (s : List Char) : List Char :=
  s.flatMap (escapeChar table)

/-- A table of entities for different characters, none of them one that entities are written
with. -/
structure Entities (table : List (Char × List Char)) : Prop where
  entity : ∀ x ∈ table, IsEntity x.2
  plain : ∀ x ∈ table, ∀ y ∈ table, x.1 ∉ y.2
  chars : (table.map Prod.fst).Nodup
  entities : (table.map Prod.snd).Nodup

variable {table : List (Char × List Char)} {c : Char} {e : List Char}

theorem Entities.tail {x : Char × List Char} (h : Entities (x :: table)) : Entities table :=
  ⟨fun y hy => h.entity y (List.mem_cons_of_mem _ hy),
    fun y hy z hz => h.plain y (List.mem_cons_of_mem _ hy) z (List.mem_cons_of_mem _ hz),
    (List.nodup_cons.1 h.chars).2, (List.nodup_cons.1 h.entities).2⟩

theorem escape_append (s t : List Char) : escape table (s ++ t) = escape table s ++
    escape table t := List.flatMap_append ..

theorem escape_cons (c : Char) (t : List Char) : escape table (c :: t) = escapeChar table c ++
    escape table t := rfl

theorem escapeChar_cases (table : List (Char × List Char)) (c : Char) :
    (escapeChar table c = [c] ∧ ∀ x ∈ table, x.1 ≠ c) ∨ (c, escapeChar table c) ∈ table := by
  unfold escapeChar
  induction table with
  | nil => exact .inl ⟨rfl, fun x hx => absurd hx List.not_mem_nil⟩
  | cons y table ih =>
    obtain ⟨d, e⟩ := y
    by_cases hd : c = d
    · subst hd
      rw [List.lookup_cons_self]
      exact .inr List.mem_cons_self
    · have hlookup : List.lookup c ((d, e) :: table) = List.lookup c table := by
        rw [List.lookup_cons, beq_false_of_ne hd]
      rw [hlookup]
      rcases ih with ⟨hplain, hnone⟩ | hmem
      · refine .inl ⟨hplain, fun x hx => ?_⟩
        rcases List.mem_cons.1 hx with rfl | hx
        · exact Ne.symm hd
        · exact hnone x hx
      · exact .inr (List.mem_cons_of_mem _ hmem)

theorem escapeChar_cons_self : escapeChar ((c, e) :: table) c = e := by
  rw [escapeChar, List.lookup_cons_self]
  rfl

theorem escapeChar_cons_of_ne {d : Char} (h : c ≠ d) :
    escapeChar ((d, e) :: table) c = escapeChar table c := by
  unfold escapeChar
  rw [List.lookup_cons, beq_false_of_ne h]

theorem escape_of_plain {w : List Char} (h : ∀ x ∈ table, x.1 ∉ w) : escape table w = w := by
  induction w with
  | nil => rfl
  | cons c w ih =>
    rw [escape_cons, ih fun x hx hmem => h x hx (List.mem_cons_of_mem _ hmem)]
    rcases escapeChar_cases table c with ⟨hplain, -⟩ | hmem
    · rw [hplain]
      rfl
    · exact absurd List.mem_cons_self (h _ hmem)

/-- What stands at the front of a written text, up to its first entity, stands at the front of the
text. -/
theorem prefix_of_escape (hentity : ∀ x ∈ table, IsEntity x.2) {w t : List Char} (hw : '&' ∉ w)
    (hpre : w <+: escape table t) : w <+: t := by
  induction w generalizing t with
  | nil => exact List.nil_prefix
  | cons c w ih =>
    rw [List.mem_cons, not_or] at hw
    cases t with
    | nil => exact absurd (List.prefix_nil.1 hpre) (List.cons_ne_nil _ _)
    | cons d t =>
      rw [escape_cons] at hpre
      rcases escapeChar_cases table d with ⟨hplain, -⟩ | hmem
      · rw [hplain, List.singleton_append] at hpre
        obtain ⟨rfl, hrest⟩ := List.cons_prefix_cons.1 hpre
        exact List.cons_prefix_cons.2 ⟨rfl, ih hw.2 hrest⟩
      · obtain ⟨name, hname, -, -⟩ := hentity _ hmem
        dsimp only at hname
        rw [hname] at hpre
        exact absurd (List.cons_prefix_cons.1 hpre).1.symm hw.1

/-- A written text decoded for one of the characters is the text, decoded for it, and written
without it. -/
theorem replace_escape (h : Entities ((c, e) :: table)) (hamp : ∀ x ∈ (c, e) :: table, x.1 ≠ '&')
    (s : List Char) :
    replace e [c] (escape ((c, e) :: table) s) = escape table (replace e [c] s) := by
  have he : IsEntity e := h.entity (c, e) List.mem_cons_self
  have hentity : ∀ x ∈ (c, e) :: table, IsEntity x.2 := h.entity
  obtain ⟨hc, -⟩ := List.nodup_cons.1 h.chars
  obtain ⟨hne, -⟩ := List.nodup_cons.1 h.entities
  have hself : escapeChar table c = [c] := by
    rcases escapeChar_cases table c with ⟨hplain, -⟩ | hmem
    · exact hplain
    · exact absurd (List.mem_map_of_mem hmem) hc
  induction s using induction he.ne_nil with
  | nil => rfl
  | found t ih =>
    rw [escape_append, escape_of_plain fun x hx => h.plain x hx _ List.mem_cons_self,
      replace_match he.ne_nil, replace_match he.ne_nil, escape_append, ih]
    exact congrArg (· ++ _) (by rw [escape_cons, hself]; rfl)
  | skip x t hskip ih =>
    rw [replace_skip hskip, escape_cons, escape_cons, ← ih]
    by_cases hx : x = c
    · rw [hx, escapeChar_cons_self, replace_match he.ne_nil, hself]
    · rw [escapeChar_cons_of_ne hx]
      rcases escapeChar_cases table x with ⟨hplain, -⟩ | hmem
      · rw [hplain, List.singleton_append, List.singleton_append]
        -- an entity here would be one of the text
        refine replace_skip fun hpre => hskip ?_
        obtain ⟨name, rfl, hname, -⟩ := he
        obtain ⟨rfl, hrest⟩ := List.cons_prefix_cons.1 hpre
        refine List.cons_prefix_cons.2 ⟨rfl, prefix_of_escape hentity ?_ hrest⟩
        rw [List.mem_append, not_or]
        exact ⟨hname, by decide⟩
      · have hother : e ≠ escapeChar table x := by
          rintro rfl
          exact hne (List.mem_map.2 ⟨_, hmem, rfl⟩)
        exact replace_entity he (h.entity _ (List.mem_cons_of_mem _ hmem)) hother _

/-- The entity of `&` itself: every one in a written text was written for an `&`. -/
theorem replace_escape_amp {amp : List Char} (hamp : IsEntity amp)
    (hentity : ∀ x ∈ table, IsEntity x.2)
    (hne : amp ∉ table.map Prod.snd) (hkeys : '&' ∉ table.map Prod.fst) (s : List Char) :
    replace amp ['&'] (escape (('&', amp) :: table) s) = escape table s := by
  induction s with
  | nil => rfl
  | cons x s ih =>
    rw [escape_cons, escape_cons, ← ih]
    by_cases hx : x = '&'
    · have hself : escapeChar table '&' = ['&'] := by
        rcases escapeChar_cases table '&' with ⟨hplain, -⟩ | hmem
        · exact hplain
        · exact absurd (List.mem_map_of_mem hmem) hkeys
      rw [hx, escapeChar_cons_self, replace_match hamp.ne_nil, hself]
    · rw [escapeChar_cons_of_ne hx]
      rcases escapeChar_cases table x with ⟨hplain, -⟩ | hmem
      · rw [hplain, List.singleton_append, List.singleton_append]
        refine replace_skip fun hpre => hx ?_
        obtain ⟨name, rfl, -, -⟩ := hamp
        exact (List.cons_prefix_cons.1 hpre).1.symm
      · have hother : amp ≠ escapeChar table x := by
          rintro rfl
          exact hne (List.mem_map_of_mem hmem)
        exact replace_entity hamp (hentity _ hmem) hother _

/-! ### Two entities of one character -/

variable {q : Char} {a b : List Char}

theorem prefix_of_replace (ha : IsEntity a) {w t : List Char} (hq : q ∉ w)
    (hpre : w <+: replace a [q] t) : w <+: t := by
  induction w generalizing t with
  | nil => exact List.nil_prefix
  | cons c w ih =>
    rw [List.mem_cons, not_or] at hq
    by_cases hfound : a <+: t
    · obtain ⟨t, rfl⟩ := hfound
      rw [replace_match ha.ne_nil, List.singleton_append] at hpre
      exact absurd (List.cons_prefix_cons.1 hpre).1.symm hq.1
    · cases t with
      | nil => exact absurd (List.prefix_nil.1 hpre) (List.cons_ne_nil _ _)
      | cons d t =>
        rw [replace_skip hfound] at hpre
        obtain ⟨rfl, hrest⟩ := List.cons_prefix_cons.1 hpre
        exact List.cons_prefix_cons.2 ⟨rfl, ih hq.2 hrest⟩

theorem replace_skip_replaced (ha : IsEntity a) (hb : q ∉ b) {c : Char} {t : List Char}
    (hskip : ¬ b <+: c :: t) :
    replace b [q] (c :: replace a [q] t) = c :: replace b [q] (replace a [q] t) := by
  refine replace_skip fun hpre => hskip ?_
  cases b with
  | nil => exact List.nil_prefix
  | cons x b =>
    rw [List.mem_cons, not_or] at hb
    obtain ⟨rfl, hrest⟩ := List.cons_prefix_cons.1 hpre
    exact List.cons_prefix_cons.2 ⟨rfl, prefix_of_replace ha hb.2 hrest⟩

/-- Two entities of one character are decoded in either order. -/
theorem replace_comm (ha : IsEntity a) (hb : IsEntity b) (hne : a ≠ b) (hqa : q ∉ a) (hqb : q ∉ b)
    (hq : q ≠ '&')
    (s : List Char) : replace b [q] (replace a [q] s) = replace a [q] (replace b [q] s) := by
  have hquote {e : List Char} (he : IsEntity e) (t : List Char) :
      replace e [q] (q :: t) = q :: replace e [q] t := by
    refine replace_skip fun hpre => hq ?_
    obtain ⟨name, rfl, -, -⟩ := he
    exact (List.cons_prefix_cons.1 hpre).1.symm
  -- a decoded entity at the front, of either kind
  have hfront {a b : List Char} (ha : IsEntity a) (hb : IsEntity b) (hne : a ≠ b) (t : List Char) :
      replace b [q] (replace a [q] (a ++ t)) = q :: replace b [q] (replace a [q] t) ∧
        replace a [q] (replace b [q] (a ++ t)) = q :: replace a [q] (replace b [q] t) := by
    constructor
    · rw [replace_match ha.ne_nil, List.singleton_append, hquote hb]
    · rw [replace_entity hb ha (Ne.symm hne), replace_match ha.ne_nil, List.singleton_append]
  induction hn : s.length using Nat.strongRecOn generalizing s with
  | ind n ih =>
    subst hn
    have hshorter {e t : List Char} (he : IsEntity e) : t.length < (e ++ t).length := by
      rw [List.length_append]
      have := List.length_pos_iff.2 he.ne_nil
      omega
    by_cases hfirst : a <+: s
    · obtain ⟨t, rfl⟩ := hfirst
      obtain ⟨hleft, hright⟩ := hfront ha hb hne t
      rw [hleft, hright, ih t.length (hshorter ha) t rfl]
    by_cases hsecond : b <+: s
    · obtain ⟨t, rfl⟩ := hsecond
      obtain ⟨hright, hleft⟩ := hfront hb ha (Ne.symm hne) t
      rw [hleft, hright, ih t.length (hshorter hb) t rfl]
    cases s with
    | nil => rfl
    | cons c t =>
      rw [replace_skip hfirst, replace_skip hsecond, replace_skip_replaced ha hqb hsecond,
        replace_skip_replaced hb hqa hfirst, ih t.length (Nat.lt_succ_self _) t rfl]

end Replace
