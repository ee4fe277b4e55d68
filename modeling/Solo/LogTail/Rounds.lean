import Solo.LogTail.Passes

/-!
# The loop of a pass

A round of the loop ends the pass, copies a piece or covers a value (`Round`). So a pass ends on
every text, and it masks what stands behind its marker exactly if it misses nothing on its way
(`redact_masks_iff`): a marker that it steps over is still there when it is done, as the cursor only
comes to what follows the next word. The later passes keep what an earlier one has masked, so
`sanitizeLogText_masks` follows for all nineteen.
-/

namespace Solo

namespace LogTail

open Bytes (len splitAt? slice? len_append splitAt?_append)

variable {m : Marker}

/-! ### Rounds -/

theorem boundary_iff {pre : List Char} : Boundary pre ↔ pre.getLast?.any isKeyChar = false := by
  unfold Boundary
  cases pre.getLast? with
  | none => simp
  | some c => simp

/-- A round that finds the word, up to what the pass does behind it. -/
theorem nextMove_found {word k : List Char} (hk : Text.toAsciiLowercase k = word) (a : List Char)
    {x y : List Char}
    (hfind : findStr word (Text.toAsciiLowercase (x ++ (k ++ y))) = some (len x))
    (follow : ℕ → Option Move) : nextMove (a ++ (x ++ (k ++ y))) word follow (len a) =
      if (a ++ x).getLast?.any isKeyChar then some (.copy (len (a ++ (x ++ k))))
      else follow (len (a ++ (x ++ k))) := by
  have hlower := splitAt?_append (Text.toAsciiLowercase a) (Text.toAsciiLowercase (x ++ (k ++ y)))
  rw [← toAsciiLowercase_append, len_toAsciiLowercase] at hlower
  have hlen : len word = len k := by rw [← hk, len_toAsciiLowercase]
  have hbefore : isKeyBoundaryBefore (a ++ (x ++ (k ++ y))) (len (a ++ x)) =
      some (!(a ++ x).getLast?.any isKeyChar) := by
    rw [← List.append_assoc, isKeyBoundaryBefore, splitAt?_append]
    rfl
  have hend : len (a ++ x ++ word) = len (a ++ (x ++ k)) := by
    rw [len_append, hlen, ← List.append_assoc, len_append (a ++ x) k]
  unfold nextMove
  rw [hlower, Option.bind_eq_bind, Option.bind_some, hfind, Option.elim_some]
  simp only [← len_append]
  rw [hbefore, hend]
  cases (a ++ x).getLast?.any isKeyChar <;> rfl

theorem nextMove_none {word a b : List Char} (h : findStr word (Text.toAsciiLowercase b) = none)
    (follow : ℕ → Option Move) : nextMove (a ++ b) word follow (len a) = some .done := by
  have hlower := splitAt?_append (Text.toAsciiLowercase a) (Text.toAsciiLowercase b)
  rw [← toAsciiLowercase_append, len_toAsciiLowercase] at hlower
  unfold nextMove
  rw [hlower, Option.bind_eq_bind, Option.bind_some, h]
  rfl

/-- What is written so far and what is read so far end alike, or what follows does not go on with a
key. -/
def SameEnd (a o b : List Char) : Prop :=
  a.getLast? = o.getLast? ∨ ∀ c ∈ b.head?, isKeyChar c = false

theorem SameEnd.append (a o : List Char) {p : List Char} (hp : p ≠ []) (b : List Char) :
    SameEnd (a ++ p) (o ++ p) b := by
  left
  rw [List.getLast?_append_of_ne_nil _ hp, List.getLast?_append_of_ne_nil _ hp]

theorem SameEnd.boundary (hm : m.Wordy) {a o x k y : List Char}
    (hk : Text.toAsciiLowercase k = m.word)
    (h : SameEnd a o (x ++ (k ++ y))) : Boundary (a ++ x) ↔ Boundary (o ++ x) := by
  have hlast : (a ++ x).getLast? = (o ++ x).getLast? := by
    by_cases hx : x = []
    · subst hx
      rw [List.append_nil, List.append_nil]
      refine h.resolve_right fun hno => ?_
      obtain ⟨c, k, rfl⟩ := List.exists_cons_of_ne_nil (hm.ne_nil hk)
      have hc := hno c rfl
      rw [hm.isKeyChar hk List.mem_cons_self] at hc
      cases hc
    · rw [List.getLast?_append_of_ne_nil _ hx, List.getLast?_append_of_ne_nil _ hx]
  rw [boundary_iff, boundary_iff, hlast]

/-- A round between `a`, which is read, and `b`: the pass ends, copies `x ++ (k ++ s)`, where `k` is
the next word, or copies as much and covers `v`. Only where it copies it may miss something. -/
inductive Round (m : Marker) (a b : List Char) : Move → Prop
  | done (hq : ∀ o, Quiet m o b []) : Round m a b .done
  | copy {x k s z : List Char} (hb : b = x ++ (k ++ (s ++ z))) (hk :
    Text.toAsciiLowercase k = m.word)
    (hfind : findStr m.word (Text.toAsciiLowercase b) = some (len x))
    (hq : ∀ o, SameEnd a o b → (Boundary (a ++ x) → ¬ m.Misses (s ++ z)) →
      Quiet m o (x ++ (k ++ s)) z) :
    Round m a b (.copy (len (a ++ (x ++ (k ++ s)))))
  | mask {x k s v w : List Char} (hb : b = x ++ (k ++ (s ++ (v ++ w)))) (hk :
    Text.toAsciiLowercase k = m.word)
    (hc : ∀ o, Cover (o ++ (x ++ (k ++ s))) v w)
    (hq : ∀ o, Quiet m o (x ++ (k ++ s)) (redacted ++ w)) :
    Round m a b (.mask (len (a ++ (x ++ (k ++ s)))) (len (a ++ (x ++ (k ++ (s ++ v))))))

theorem nextMove_round (hm : m.Wordy) (a b : List Char) :
    ∃ move, nextMove (a ++ b) m.word (m.follow (a ++ b)) (len a) = some move ∧
    Round m a b move := by
  rcases findStr_lower m.word b with ⟨hnone, hno⟩ | ⟨x, k, y, rfl, hk, hfind, hno⟩
  · exact ⟨_, nextMove_none hnone _, .done fun o => quiet_of_none hno o⟩
  have hmove := nextMove_found hk a hfind (m.follow (a ++ (x ++ (k ++ y))))
  have hbefore (o z : List Char) : Quiet m o x (k ++ z) := quiet_before hk hno o z
  by_cases hpre : Boundary (a ++ x)
  · rw [boundary_iff.1 hpre, if_neg Bool.false_ne_true] at hmove
    obtain ⟨move, hsome, hcase⟩ := follow_spec hm hk (a ++ x) y
    rw [List.append_assoc, List.append_assoc] at hsome
    refine ⟨move, hmove.trans hsome, ?_⟩
    cases hcase with
    | done hq =>
      refine .done fun o => Quiet.append ?_ (hq (o ++ x))
      rw [List.append_nil]
      exact hbefore o y
    | @copy s z hy hq =>
      subst hy
      rw [List.append_assoc]
      refine .copy rfl hk hfind fun o hsame hmiss => Quiet.append ?_ (hq (o ++ x) ?_ (hmiss hpre))
      · rw [List.append_assoc]
        exact hbefore o (s ++ z)
      · exact (hsame.boundary hm hk).1 hpre
    | @mask s v w hy hc hq =>
      subst hy
      simp only [List.append_assoc]
      refine .mask rfl hk (fun o => ?_) fun o => Quiet.append ?_ (hq (o ++ x))
      · rw [← List.append_assoc]
        exact hc (o ++ x)
      · rw [List.append_assoc]
        exact hbefore o (s ++ (redacted ++ w))
  · rw [eq_true_of_ne_false fun h => hpre (boundary_iff.2 h), if_pos rfl] at hmove
    refine ⟨_, hmove, ?_⟩
    have hround := Round.copy (m := m) (a := a) (s := []) (z := y) rfl hk hfind fun o hsame _ =>
      Quiet.append (a := x) (b := k ++ []) ?_ ?_
    · rwa [List.append_nil] at hround
    · rw [List.append_nil]
      exact hbefore o y
    · rw [List.append_nil]
      exact quiet_word hm hk fun ho => absurd ((hsame.boundary hm hk).2 ho) hpre

/-! ### The loop -/

theorem slice?_append (a p z : List Char) : slice? (a ++ (p ++ z)) (len a) (len (a ++ p)) =
    some p := by
  rw [slice?, if_pos (by rw [len_append]; omega), splitAt?_append, Option.bind_eq_bind,
    Option.bind_some, len_append, Nat.add_sub_cancel_left, splitAt?_append]
  rfl

variable {word a o p v z b out : List Char} {follow : ℕ → Option Move} {fuel : ℕ}

theorem redactLoop_done (h : nextMove (a ++ b) word follow (len a) = some .done) :
    redactLoop (a ++ b) word follow (fuel + 1) o (len a) = some (o ++ b) := by
  rw [redactLoop, h, Option.bind_some, splitAt?_append]
  rfl

theorem redactLoop_copy
    (h : nextMove (a ++ (p ++ z)) word follow (len a) = some (.copy (len (a ++ p)))) :
    redactLoop (a ++ (p ++ z)) word follow (fuel + 1) o (len a) =
      redactLoop (a ++ (p ++ z)) word follow fuel (o ++ p) (len (a ++ p)) := by
  rw [redactLoop, h, Option.bind_some]
  dsimp only
  rw [slice?_append, Option.bind_some]

theorem redactLoop_mask
    (h : nextMove (a ++ (p ++ z)) word follow (len a) =
      some (.mask (len (a ++ p)) (len (a ++ (p ++ v))))) :
    redactLoop (a ++ (p ++ z)) word follow (fuel + 1) o (len a) =
      redactLoop (a ++ (p ++ z)) word follow fuel (o ++ p ++ redacted) (len (a ++ (p ++ v))) := by
  rw [redactLoop, h, Option.bind_some]
  dsimp only
  rw [slice?_append, Option.bind_some]

/-- A pass ends, it covers values, and where it misses nothing it leaves nothing unmasked behind its
marker. -/
theorem redactLoop_spec (hm : m.Wordy) {input : List Char} (hin : input = a ++ b)
    (hfuel : b.length < fuel) (hsame : SameEnd a o b) :
    ∃ out, redactLoop input m.word (m.follow input) fuel o (len a) = some out ∧
      Relation.ReflTransGen Step (o ++ b) out ∧
      (m.Clear input → Relation.ReflTransGen (m.Moves input) 0 (len a) → Quiet m [] o b →
        AllMasked m.Head out) := by
  induction fuel generalizing a o b with
  | zero => exact absurd hfuel (Nat.not_lt_zero _)
  | succ fuel ih =>
    subst hin
    obtain ⟨move, hmove, hround⟩ := nextMove_round hm a b
    cases hround with
    | done hq =>
      refine ⟨o ++ b, redactLoop_done hmove, .refl,
        fun _ _ hquiet => Quiet.allMasked hm (Quiet.append ?_ (hq o))⟩
      rwa [List.append_nil]
    | @copy x k s z hb hk hfind hq =>
      have hsplit : b = x ++ (k ++ s) ++ z := by rw [hb, List.append_assoc, List.append_assoc]
      have hne : x ++ (k ++ s) ≠ [] := by simp [hm.ne_nil hk]
      have hshort : z.length < fuel := by
        have hpos := List.length_pos_iff.2 hne
        rw [hsplit, List.length_append] at hfuel
        omega
      obtain ⟨out, hout, hsteps, hall⟩ :=
        ih (a := a ++ (x ++ (k ++ s))) (o := o ++ (x ++ (k ++ s))) (b := z)
        (by rw [hsplit, List.append_assoc a]) hshort (.append a o hne z)
      refine ⟨out, ?_, ?_, fun hclear hreach hquiet => hall hclear (hreach.tail (.inl hmove)) ?_⟩
      · rw [hsplit] at hmove hout ⊢
        rwa [redactLoop_copy hmove]
      · rwa [hsplit, ← List.append_assoc o]
      · rw [hsplit] at hquiet
        refine hquiet.append (hq o hsame fun hpre => hclear (a ++ x) k (s ++ z) ?_)
        exact ⟨by rw [hb, List.append_assoc], hk, hpre, a, x, rfl, hreach, hb ▸ hfind⟩
    | @mask x k s v w hb hk hc hq =>
      have hsplit : b = x ++ (k ++ s) ++ (v ++ w) := by simp only [hb, List.append_assoc]
      have hcover := hc o
      have hnext : ∀ c ∈ w.head?, isKeyChar c = false :=
        fun c hc => eq_false_of_ne_true fun hkey => by
        have hend := hcover.next c hc
        rw [isValueEnd_of_isKeyChar hkey] at hend
        cases hend
      have hshort : w.length < fuel := by
        have hpos := List.length_pos_iff.2 (hm.ne_nil hk)
        simp only [hb, List.length_append] at hfuel
        omega
      obtain ⟨out, hout, hsteps, hall⟩ := ih (a := a ++ (x ++ (k ++ (s ++ v))))
        (o := o ++ (x ++ (k ++ s)) ++ redacted) (b := w) (by simp only [hb, List.append_assoc])
        hshort (.inr hnext)
      have hstep : Step (o ++ b) (o ++ (x ++ (k ++ s)) ++ redacted ++ w) := by
        have hcovered := Step.cover hcover
        rwa [List.append_assoc, ← hsplit, ← List.append_assoc _ redacted] at hcovered
      refine ⟨out, ?_, .head hstep hsteps,
        fun hclear hreach hquiet => hall hclear (hreach.tail (.inr ⟨_, hmove⟩)) ?_⟩
      · have hcut : x ++ (k ++ (s ++ v)) = x ++ (k ++ s) ++ v := by simp only [List.append_assoc]
        rw [hcut] at hmove hout
        rw [hsplit] at hmove hout ⊢
        rwa [redactLoop_mask hmove]
      · have hmasked : Quiet m [] o (x ++ (k ++ s) ++ (redacted ++ w)) := by
          refine Quiet.cover hm hcover ?_
          rwa [← hsplit]
        exact Quiet.append (Quiet.append hmasked (hq o)) (quiet_redacted hm _ _)

/-! ### What is missed stays -/

theorem redactLoop_extends {input : List Char} {c : ℕ}
    (h : redactLoop input word follow fuel o c = some out) : ∃ e, out = o ++ e := by
  induction fuel generalizing o c with
  | zero => cases h
  | succ fuel ih =>
    rw [redactLoop] at h
    obtain ⟨move, -, h⟩ := Option.bind_eq_some_iff.1 h
    cases move with
    | done =>
      obtain ⟨cut, -, hcut⟩ := Option.map_eq_some_iff.1 h
      exact ⟨cut.2, hcut.symm⟩
    | copy stop =>
      obtain ⟨piece, -, h⟩ := Option.bind_eq_some_iff.1 h
      obtain ⟨e, he⟩ := ih h
      exact ⟨piece ++ e, by rw [he, List.append_assoc]⟩
    | mask start stop =>
      obtain ⟨piece, -, h⟩ := Option.bind_eq_some_iff.1 h
      obtain ⟨e, he⟩ := ih h
      exact ⟨piece ++ redacted ++ e, by simp only [he, List.append_assoc]⟩

/-- The loop of a pass with the output `out`, between `a`, which is read, and `b`. -/
structure Running (m : Marker) (input out a o b : List Char) : Prop where
  text : input = a ++ b
  run : ∃ fuel, redactLoop input m.word (m.follow input) fuel o (len a) = some out
  same : SameEnd a o b

variable {input : List Char}

theorem Running.copy (h : Running m input out a o b) {p z : List Char} (hb : b = p ++ z)
    (hp : p ≠ [])
    (hmove : nextMove input m.word (m.follow input) (len a) = some (.copy (len (a ++ p)))) :
    Running m input out (a ++ p) (o ++ p) z := by
  obtain ⟨rfl, ⟨fuel, hrun⟩, -⟩ := h
  subst hb
  cases fuel with
  | zero => cases hrun
  | succ fuel =>
    rw [redactLoop_copy hmove] at hrun
    exact ⟨by rw [List.append_assoc], ⟨fuel, hrun⟩, .append a o hp z⟩

theorem Running.mask (h : Running m input out a o b) {p v w : List Char} (hb : b = p ++ (v ++ w))
    (hmove : nextMove input m.word (m.follow input) (len a) =
      some (.mask (len (a ++ p)) (len (a ++ (p ++ v)))))
    (hw : ∀ c ∈ w.head?, isKeyChar c = false) :
    Running m input out (a ++ (p ++ v)) (o ++ p ++ redacted) w := by
  obtain ⟨rfl, ⟨fuel, hrun⟩, -⟩ := h
  subst hb
  cases fuel with
  | zero => cases hrun
  | succ fuel =>
    rw [redactLoop_mask hmove] at hrun
    exact ⟨by simp only [List.append_assoc], ⟨fuel, hrun⟩, .inr hw⟩

/-- The next cursor. -/
theorem Running.next (hm : m.Wordy) (h : Running m input out a o b) :
    (nextMove input m.word (m.follow input) (len a) = some .done ∧ out = o ++ b) ∨
      (∃ x k s z, b = x ++ (k ++ s) ++ z ∧ Text.toAsciiLowercase k = m.word ∧
        nextMove input m.word (m.follow input) (len a) = some (.copy (len (a ++ (x ++ (k ++ s))))) ∧
        Running m input out (a ++ (x ++ (k ++ s))) (o ++ (x ++ (k ++ s))) z) ∨
      ∃ x k s v w, b = x ++ (k ++ s) ++ (v ++ w) ∧ Text.toAsciiLowercase k = m.word ∧
        nextMove input m.word (m.follow input) (len a) =
          some (.mask (len (a ++ (x ++ (k ++ s)))) (len (a ++ (x ++ (k ++ s) ++ v)))) ∧
        Running m input out (a ++ (x ++ (k ++ s) ++ v)) (o ++ (x ++ (k ++ s)) ++ redacted) w := by
  obtain ⟨move, hmove, hround⟩ := nextMove_round hm a b
  rw [← h.text] at hmove
  cases hround with
  | done hq =>
    obtain ⟨rfl, ⟨fuel, hrun⟩, -⟩ := h
    cases fuel with
    | zero => cases hrun
    | succ fuel =>
      rw [redactLoop_done hmove] at hrun
      exact .inl ⟨hmove, (Option.some.inj hrun).symm⟩
  | @copy x k s z hb hk hfind hq =>
    have hsplit : b = x ++ (k ++ s) ++ z := by rw [hb, List.append_assoc, List.append_assoc]
    exact .inr (.inl ⟨x, k, s, z, hsplit, hk, hmove, h.copy hsplit (by simp [hm.ne_nil hk]) hmove⟩)
  | @mask x k s v w hb hk hc hq =>
    have hsplit : b = x ++ (k ++ s) ++ (v ++ w) := by simp only [hb, List.append_assoc]
    have hcut : x ++ (k ++ (s ++ v)) = x ++ (k ++ s) ++ v := by simp only [List.append_assoc]
    rw [hcut] at hmove
    refine .inr (.inr ⟨x, k, s, v, w, hsplit, hk, hmove, h.mask hsplit hmove fun c hcw => ?_⟩)
    refine eq_false_of_ne_true fun hkey => ?_
    have hend := (hc o).next c hcw
    rw [isValueEnd_of_isKeyChar hkey] at hend
    cases hend

/-- The pass keeps what follows its cursor, up to and with the next word. -/
theorem Running.keeps (hm : m.Wordy) (h : Running m input out a o b) :
    ∃ e, out = o ++ e ∧ (e = b ∨ ∃ x k y z, b = x ++ (k ++ y) ∧ Text.toAsciiLowercase k = m.word ∧
      e = x ++ (k ++ z)) := by
  rcases h.next hm with ⟨-, rfl⟩ | ⟨x, k, s, z, rfl, hk, -, hnext⟩ | ⟨x, k, s, v, w, rfl, hk, -,
    hnext⟩
  · exact ⟨b, rfl, .inl rfl⟩
  · obtain ⟨fuel, hrun⟩ := hnext.run
    obtain ⟨e, rfl⟩ := redactLoop_extends hrun
    exact ⟨x ++ (k ++ s) ++
      e, by rw [List.append_assoc], .inr ⟨x, k, s ++ z, s ++ e, by simp, hk, by simp⟩⟩
  · obtain ⟨fuel, hrun⟩ := hnext.run
    obtain ⟨e, rfl⟩ := redactLoop_extends hrun
    exact ⟨x ++ (k ++ s) ++ redacted ++ e, by simp,
      .inr ⟨x, k, s ++ (v ++ w), s ++ (redacted ++ e), by simp, hk, by simp⟩⟩

/-- At each of its cursors the pass is running. -/
theorem Running.of_reach (hm : m.Wordy) (hstart : Running m input out [] [] input) {c : ℕ}
    (h : Relation.ReflTransGen (m.Moves input) 0 c) : ∃ a o b, c = len a ∧
    Running m input out a o b := by
  induction h with
  | refl => exact ⟨[], [], input, rfl, hstart⟩
  | tail _ hstep ih =>
    obtain ⟨a, o, b, rfl, hrunning⟩ := ih
    rcases hrunning.next hm with ⟨hmove, -⟩ | ⟨x, k, s, z, -, -, hmove, hnext⟩ | ⟨x, k, s, v, w, -,
      -, hmove, hnext⟩
    · rcases hstep with hstep | ⟨start, hstep⟩ <;> rw [hmove] at hstep <;> cases hstep
    · rcases hstep with hstep | ⟨start, hstep⟩ <;> rw [hmove] at hstep <;> cases hstep
      exact ⟨_, _, _, rfl, hnext⟩
    · rcases hstep with hstep | ⟨start, hstep⟩ <;> rw [hmove] at hstep <;> cases hstep
      exact ⟨_, _, _, rfl, hnext⟩

/-- What the pass misses is still there when it is done. -/
theorem Running.clear (hm : m.Wordy) (hstart : Running m input out [] [] input)
    (hout : AllMasked m.Head out) : m.Clear input := by
  rintro pre k y ⟨hin, hk, hpre, a, x, rfl, hreach, hfind⟩ hmiss
  obtain ⟨a', o, b, hlen, hrunning⟩ := hstart.of_reach hm hreach
  obtain ⟨rfl, rfl⟩ : a = a' ∧ b = x ++ (k ++ y) := by
    have hcut := splitAt?_append a (x ++ (k ++ y))
    have hcut' := splitAt?_append a' b
    rw [← hrunning.text, ← hlen, hin, List.append_assoc, hcut] at hcut'
    obtain ⟨ha, hb⟩ := Prod.mk.inj (Option.some.inj hcut')
    exact ⟨ha, hb.symm⟩
  obtain ⟨s, z, s₁, t, t', rest, rfl, hks, rfl, hmissed, hfollow⟩ := hmiss.follow hm hk (a ++ x)
  have hmove := nextMove_found hk a hfind (m.follow input)
  rw [List.append_assoc a x (k ++ s)] at hfollow
  rw [boundary_iff.1 hpre, if_neg Bool.false_ne_true, ← hrunning.text, ← List.append_assoc, hin,
    hfollow, List.append_assoc a x, ← hrunning.text] at hmove
  have hsplit : x ++ (k ++ (s ++ (t' ++ rest))) = x ++ (k ++ s) ++ (t' ++ rest) := by
    simp only [List.append_assoc]
  have hnext := hrunning.copy hsplit (by simp [hm.ne_nil hk]) hmove
  obtain ⟨e, rfl, hkeeps⟩ := hnext.keeps hm
  obtain ⟨rest', rfl, hrest⟩ : ∃ rest', e = t' ++ rest' ∧ ¬ Masked rest' := by
    rcases hkeeps with rfl | ⟨x', k', y', z', heq, hk', rfl⟩
    · exact ⟨rest, rfl, hmissed.unmasked⟩
    · obtain ⟨x', rfl, rfl⟩ := hmissed.no_word hm hk' heq
      exact ⟨x' ++
        (k' ++ z'), by rw [List.append_assoc], fun h => hmissed.unmasked (masked_congr hm hk' h)⟩
  refine hrest (hout (o ++ x ++ s₁) (t ++ t') rest' ?_ ?_ hmissed.head)
  · rw [hks]
    simp only [List.append_assoc]
  · exact hmissed.boundary _ ((hrunning.same.boundary hm hk).1 hpre)

/-! ### All passes -/

/-- The pass of a marker. -/
def Marker.redact : Marker → List Char → Option (List Char)
  | bearer, text => redactBearerTokens text
  | key word, text => redactAssignmentValues text word
  | flag word, text => redactFlagValues text word

theorem sanitizeLogText_eq (input : List Char) :
    sanitizeLogText input = markers.foldlM (fun text m => m.redact text) input := by
  rw [markers, List.foldlM_cons, sanitizeLogText]
  refine Option.bind_congr fun text _ => ?_
  rw [List.foldlM_append, List.foldlM_map]
  refine Option.bind_congr fun text _ => ?_
  rw [List.foldlM_map]
  rfl

theorem redact_eq (hm : m ∈ markers) (input : List Char) :
    m.redact input = redactLoop input m.word (m.follow input) (input.length + 1) [] (len []) := by
  have hlower : Text.toAsciiLowercase m.word = m.word := by
    have hall : markers.all fun m => Text.toAsciiLowercase m.word == m.word := by decide
    exact eq_of_beq (List.all_eq_true.1 hall m hm)
  cases m with
  | bearer => rfl
  | key word =>
    rw [Marker.redact, redactAssignmentValues, show Text.toAsciiLowercase word = word from hlower]
    rfl
  | flag word =>
    rw [Marker.redact, redactFlagValues, show Text.toAsciiLowercase word = word from hlower]
    rfl

/-- A pass masks everything behind its marker exactly if it misses nothing. -/
theorem redact_masks_iff (hm : m ∈ markers) (input : List Char) :
    ∃ out, m.redact input = some out ∧ Relation.ReflTransGen Step input out ∧
      (AllMasked m.Head out ↔ m.Clear input) := by
  have hword := wordy_of_mem hm
  obtain ⟨out, hout, hsteps, hall⟩ := redactLoop_spec hword (a := []) (o := []) (b := input) rfl
    (Nat.lt_succ_self input.length) (.inl rfl)
  refine ⟨out, (redact_eq hm input).trans hout, hsteps, fun hmasked => ?_,
    fun hclear => hall hclear .refl (Quiet.nil _ _)⟩
  exact Running.clear hword ⟨rfl, ⟨_, hout⟩, .inl rfl⟩ hmasked

theorem steps_allMasked (hm : m.Wordy) {t t' : List Char} (h : Relation.ReflTransGen Step t t')
    (ht : AllMasked m.Head t) : AllMasked m.Head t' := by
  induction h with
  | refl => exact ht
  | tail _ hstep ih => exact hstep.allMasked (headLike_head hm) ih

/-- Each pass misses nothing on the line that the passes before it have left. -/
def ClearRun : List Marker → List Char → Prop
  | [], _ => True
  | m :: ms, text => m.Clear text ∧ ∀ out ∈ m.redact text, ClearRun ms out

/-- Each pass masks its own marker, and the later ones keep it so. -/
theorem foldlM_redact {ms : List Marker} (hms : ∀ m ∈ ms, m ∈ markers) (input : List Char) :
    ∃ out, ms.foldlM (fun text m => m.redact text) input = some out ∧
    Relation.ReflTransGen Step input out ∧
      (ClearRun ms input → ∀ m ∈ ms, AllMasked m.Head out) := by
  induction ms generalizing input with
  | nil => exact ⟨input, rfl, .refl, fun _ m hm => absurd hm List.not_mem_nil⟩
  | cons m ms ih =>
    obtain ⟨hm, hms⟩ := List.forall_mem_cons.1 hms
    obtain ⟨text, htext, hsteps, hmask⟩ := redact_masks_iff hm input
    obtain ⟨out, hout, hsteps', hmasks⟩ := ih hms text
    refine ⟨out, ?_, hsteps.trans hsteps',
      fun hclear => List.forall_mem_cons.2 ⟨?_, hmasks (hclear.2 text htext)⟩⟩
    · rw [List.foldlM_cons, htext]
      exact hout
    · exact steps_allMasked (wordy_of_mem hm) hsteps' (hmask.2 hclear.1)

/-- The sanitizer ends on every line without a panic. Its output is sanitized unless a pass misses a
marker: a quoted value after `bearer`, or a key that it steps into as it looks for the separator of
that same key. -/
theorem sanitizeLogText_masks (input : List Char) :
    ∃ out, sanitizeLogText input = some out ∧ (ClearRun markers input → Sanitized out) := by
  obtain ⟨out, hout, -, hmasks⟩ := foldlM_redact (fun m hm => hm) input
  exact ⟨out, (sanitizeLogText_eq input).trans hout, hmasks⟩

theorem clear_of_absent {input : List Char} (h : ¬ m.word <:+: Text.toAsciiLowercase input) :
    m.Clear input := by
  rintro pre k y ⟨rfl, hk, -⟩ -
  refine h ⟨Text.toAsciiLowercase pre, Text.toAsciiLowercase y, ?_⟩
  rw [← hk, ← toAsciiLowercase_append, ← toAsciiLowercase_append, List.append_assoc]

theorem redact_of_not_infix (hm : m ∈ markers) {input : List Char}
    (h : ¬ m.word <:+: Text.toAsciiLowercase input) : m.redact input = some input := by
  have hnone : findStr m.word (Text.toAsciiLowercase input) = none := by
    rcases findStr_lower m.word input with ⟨hnone, -⟩ | ⟨x, k, y, rfl, hk, -⟩
    · exact hnone
    · refine absurd ⟨Text.toAsciiLowercase x, Text.toAsciiLowercase y, ?_⟩ h
      rw [← hk, ← toAsciiLowercase_append, ← toAsciiLowercase_append, List.append_assoc]
  rw [redact_eq hm]
  exact redactLoop_done (a := []) (nextMove_none hnone _)

/-- Passes whose words do not stand in the line. -/
theorem clearRun_append {ms : List Marker} (hms : ∀ m ∈ ms, m ∈ markers) {input : List Char}
    (h : ms.all (fun m => !decide (m.word <:+: Text.toAsciiLowercase input)) = true)
    (rest : List Marker) : ClearRun (ms ++ rest) input ↔ ClearRun rest input := by
  induction ms with
  | nil => rfl
  | cons m ms ih =>
    obtain ⟨hm, hms⟩ := List.forall_mem_cons.1 hms
    rw [List.all_cons, Bool.and_eq_true] at h
    have hno : ¬ m.word <:+: Text.toAsciiLowercase input := by simpa using h.1
    rw [List.cons_append, ClearRun, redact_of_not_infix hm hno, ← ih hms h.2]
    simp [clear_of_absent hno]

/-- A line whose separators are all followed by a bracket. -/
theorem allMasked_of_isChain {word text : List Char}
    (h : text.IsChain fun c d => (c = '=' ∨ c = ':') → d = '[') :
    AllMasked (Marker.key word).Head text := by
  rintro pre s rest rfl - ⟨k, x, rfl, -, g, sep, blank, rfl, -, hsep, hblank⟩
  have hright : (sep :: (blank ++ rest)).IsChain fun c d => (c = '=' ∨ c = ':') → d = '[' := by
    have hsplit : ((pre ++ (k ++ g)) ++ sep :: (blank ++ rest)).IsChain
        fun c d => (c = '=' ∨ c = ':') → d = '[' := by
      simpa only [List.append_assoc, List.cons_append] using h
    exact hsplit.right_of_append
  cases blank with
  | nil =>
    cases rest with
    | nil => exact masked_nil
    | cons c rest =>
      obtain rfl := (List.isChain_cons_cons.1 hright).1 hsep
      exact masked_of_isValueEnd (by decide) (by decide) rest
  | cons c blank =>
    obtain rfl := (List.isChain_cons_cons.1 hright).1 hsep
    exact absurd (hblank '[' List.mem_cons_self) (by decide)

/-- The second of the three keys is the value of the first, and the third one directly follows
it. -/
theorem sanitizeLogText_masks_token :
    sanitizeLogText "token=token token=abc".toList =
    some "token=[redacted] token=[redacted]".toList ∧
      Sanitized "token=[redacted] token=[redacted]".toList := by
  have hout : sanitizeLogText "token=token token=abc".toList =
      some "token=[redacted] token=[redacted]".toList := by
    decide +kernel
  obtain ⟨out, hsome, hmasks⟩ := sanitizeLogText_masks "token=token token=abc".toList
  obtain rfl := Option.some.inj (hout.symm.trans hsome)
  refine ⟨hout, hmasks ?_⟩
  have hmarkers : markers = markers.take 9 ++ .key "token".toList :: (markers.drop 10 ++ []) := rfl
  have hmem : Marker.key "token".toList ∈ markers :=
    hmarkers ▸ List.mem_append_right _ List.mem_cons_self
  have hpass : (Marker.key "token".toList).redact "token=token token=abc".toList =
      some "token=[redacted] token=[redacted]".toList := by decide +kernel
  obtain ⟨out', hout', -, hclear⟩ := redact_masks_iff hmem "token=token token=abc".toList
  obtain rfl := Option.some.inj (hpass.symm.trans hout')
  rw [hmarkers, clearRun_append (fun m hm => List.mem_of_mem_take hm) (by decide +kernel)]
  refine ⟨hclear.1 (allMasked_of_isChain (by decide +kernel)), fun out hsome => ?_⟩
  obtain rfl := Option.some.inj (hpass.symm.trans hsome)
  rw [clearRun_append (fun m hm => List.mem_of_mem_drop hm) (by decide +kernel)]
  trivial

/-- After `token ` the first letter of the second `token` is stepped over, and `bearer` takes no
quoted value. -/
theorem sanitizeLogText_leaves :
    (sanitizeLogText "token token=abc".toList = some "token token=abc".toList ∧
      ¬ Sanitized "token token=abc".toList) ∧
      sanitizeLogText "bearer \"abc\"".toList = some "bearer \"abc\"".toList ∧
      ¬ Sanitized "bearer \"abc\"".toList := by
  refine ⟨⟨by decide +kernel, fun h => ?_⟩, by decide +kernel, fun h => ?_⟩
  · have hmem : Marker.key "token".toList ∈ markers :=
      List.mem_cons_of_mem _ (List.mem_append_left _ (List.mem_map_of_mem (by decide)))
    have hmasked :=
      h _ hmem "token ".toList "token=".toList "abc".toList (by decide) (boundary_iff.2 (by decide))
      ⟨"token".toList, "=".toList, rfl, rfl, [], '=', [], rfl, .inl (List.forall_mem_nil _),
        .inl rfl, List.forall_mem_nil _⟩
    revert hmasked
    unfold Masked
    decide
  · have hmasked := h .bearer List.mem_cons_self [] "bearer ".toList "\"abc\"".toList (by decide)
      (boundary_iff.2 (by decide))
      ⟨"bearer".toList, [' '], rfl, rfl, ' ', [], rfl, rfl, List.forall_mem_nil _⟩
    revert hmasked
    unfold Masked
    decide

end LogTail

end Solo
