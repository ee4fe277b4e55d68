import Mathlib.Data.List.Basic

/-!
# Computations that may fail

Inversion of `bind` in `Except`, and the invariant rule for loops that stop at the first error: what
each successful round preserves, the successful loop preserves.
-/

namespace Result

variable {ε α β σ : Type}

theorem bind_eq_ok {x : Except ε α} {f : α → Except ε β} {b : β} :
    (x >>= f) = .ok b ↔ ∃ a, x = .ok a ∧ f a = .ok b := by
  cases x with
  | error e => simp [bind, Except.bind]
  | ok a => simp [bind, Except.bind]

@[simp] theorem pure_eq_ok {a b : α} : (pure a : Except ε α) = .ok b ↔ a = b := by
  simp [pure, Except.pure]

theorem map_eq_ok {x : Except ε α} {f : α → β} {b : β} : f <$> x = .ok b ↔ ∃ a, x = .ok a ∧
    f a = b := by
  cases x with
  | error e => simp [Functor.map, Except.map]
  | ok a => simp [Functor.map, Except.map]

/-- `if c { return Err(e) }`. -/
def rejectIf (c : Prop) [Decidable c] (e : ε) : Except ε Unit := if c then .error e else .ok ()

@[simp] theorem rejectIf_eq_ok {c : Prop} [Decidable c] {e : ε} {u : Unit} : rejectIf c e = .ok u ↔
    ¬ c := by
  unfold rejectIf
  split <;> simp [*]

theorem ok_of_forM_eq_ok {f : α → Except ε Unit} {l : List α} {u : Unit} (h : l.forM f = .ok u)
    {a : α} (ha : a ∈ l) : f a = .ok () := by
  induction l with
  | nil => cases ha
  | cons x l ih =>
    obtain ⟨_, hx, h⟩ := bind_eq_ok.1 h
    rcases List.mem_cons.1 ha with rfl | ha
    · exact hx
    · exact ih h ha

theorem forM_eq_ok {f : α → Except ε Unit} {l : List α} (h : ∀ a ∈ l, f a = .ok ()) :
    l.forM f = .ok () := by
  induction l with
  | nil => rfl
  | cons x l ih =>
    exact bind_eq_ok.2 ⟨(), h x List.mem_cons_self, ih fun a ha => h a (List.mem_cons_of_mem _ ha)⟩

theorem foldlM_cons_eq_ok {f : σ → α → Except ε σ} {s s' : σ} {a : α} {l : List α} :
    (a :: l).foldlM f s = .ok s' ↔ ∃ s₁, f s a = .ok s₁ ∧ l.foldlM f s₁ = .ok s' := by
  rw [List.foldlM_cons, bind_eq_ok]

/-- The invariant rule of a loop that stops at the first error. -/
theorem foldlM_invariant (Inv : σ → Prop) {f : σ → α → Except ε σ} {l : List α}
    (hstep : ∀ a ∈ l, ∀ s s', Inv s → f s a = .ok s' → Inv s') {s s' : σ} (h0 : Inv s)
    (h : l.foldlM f s = .ok s') : Inv s' := by
  induction l generalizing s with
  | nil =>
    rw [List.foldlM_nil, pure_eq_ok] at h
    exact h ▸ h0
  | cons a l ih =>
    obtain ⟨s₁, h₁, h⟩ := foldlM_cons_eq_ok.1 h
    exact ih (fun b hb => hstep b (List.mem_cons_of_mem _ hb))
      (hstep a List.mem_cons_self s s₁ h0 h₁) h

/-- The same for statements that only succeed or fail. -/
theorem foldlM_invariant_option (Inv : σ → Prop) {f : σ → α → Option σ} {l : List α}
    (hstep : ∀ a ∈ l, ∀ s s', Inv s → f s a = some s' → Inv s') {s s' : σ} (h0 : Inv s)
    (h : l.foldlM f s = some s') : Inv s' := by
  induction l generalizing s with
  | nil =>
    rw [List.foldlM_nil, Option.pure_def, Option.some.injEq] at h
    exact h ▸ h0
  | cons a l ih =>
    rw [List.foldlM_cons, Option.bind_eq_bind, Option.bind_eq_some_iff] at h
    obtain ⟨s₁, h₁, h⟩ := h
    exact ih (fun b hb => hstep b (List.mem_cons_of_mem _ hb))
      (hstep a List.mem_cons_self s s₁ h0 h₁) h

theorem ok_of_mapM_eq_ok {f : α → Except ε β} {l : List α} {l' : List β} (h : l.mapM f = .ok l')
    {a : α} (ha : a ∈ l) : ∃ b, f a = .ok b := by
  induction l generalizing l' with
  | nil => cases ha
  | cons x l ih =>
    rw [List.mapM_cons] at h
    obtain ⟨b, hb, h⟩ := bind_eq_ok.1 h
    obtain ⟨bs, hbs, -⟩ := bind_eq_ok.1 h
    rcases List.mem_cons.1 ha with rfl | ha
    · exact ⟨b, hb⟩
    · exact ih hbs ha

theorem mapM_eq_ok_map {f : α → Except ε β} {g : α → β} {l : List α}
    (h : ∀ a ∈ l, f a = .ok (g a)) : l.mapM f = .ok (l.map g) := by
  induction l with
  | nil => rfl
  | cons a l ih =>
    rw [List.mapM_cons, h a List.mem_cons_self, ih fun b hb => h b (List.mem_cons_of_mem _ hb)]
    rfl

theorem ok_of_foldlM_eq_ok {f : σ → α → Except ε σ} {l : List α} {s s' : σ}
    (h : l.foldlM f s = .ok s') {a : α} (ha : a ∈ l) : ∃ s₁ s₂, f s₁ a = .ok s₂ := by
  induction l generalizing s with
  | nil => cases ha
  | cons x l ih =>
    obtain ⟨s₁, h₁, h⟩ := foldlM_cons_eq_ok.1 h
    rcases List.mem_cons.1 ha with rfl | ha
    · exact ⟨s, s₁, h₁⟩
    · exact ih h ha

theorem foldlM_eq_ok_foldl {f : σ → α → Except ε σ} {g : σ → α → σ} {l : List α}
    (h : ∀ a ∈ l, ∀ s, f s a = .ok (g s a)) (s : σ) : l.foldlM f s = .ok (l.foldl g s) := by
  induction l generalizing s with
  | nil => rfl
  | cons a l ih =>
    rw [foldlM_cons_eq_ok]
    exact ⟨g s a, h a List.mem_cons_self s, ih (fun b hb => h b (List.mem_cons_of_mem _ hb)) _⟩

/-- What a map that succeeds says of each element, it says of the list. -/
theorem map_of_mapM_eq_ok {γ : Type} {f : α → Except ε β} {g : β → γ} {g' : α → γ}
    (hg : ∀ a b, f a = .ok b → g b = g' a) {l : List α} {l' : List β} (h : l.mapM f = .ok l') :
    l'.map g = l.map g' := by
  induction l generalizing l' with
  | nil =>
    rw [List.mapM_nil, pure_eq_ok] at h
    exact h ▸ rfl
  | cons a l ih =>
    rw [List.mapM_cons] at h
    obtain ⟨b, hb, h⟩ := bind_eq_ok.1 h
    obtain ⟨bs, hbs, h⟩ := bind_eq_ok.1 h
    rw [pure_eq_ok] at h
    rw [← h, List.map_cons, List.map_cons, hg a b hb, ih hbs]

end Result
