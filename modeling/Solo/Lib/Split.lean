import Solo.Lib.Replace

/-!
# Lines and paragraphs

`str::split` and `str::lines`. Split at empty lines, a text falls into its paragraphs, but for empty
lines at their fronts, so what is looked for in the pieces is found in the paragraphs. A text with
line ends of either kind that is cut anywhere is cut within a line, or between the two characters of
a line end.
-/

namespace Text

open Replace

/-! ### Splitting -/

/-- The pieces, with the number of characters still to be skipped of a separator. -/
def splitFrom (pat : List Char) : ℕ → List Char → List (List Char)
  | _, [] => [[]]
  | skip + 1, _ :: cs => splitFrom pat skip cs
  | 0, c :: cs =>
    if pat.isPrefixOf (c :: cs) then [] :: splitFrom pat (pat.length - 1) cs
    else (splitFrom pat 0 cs).modifyHead (c :: ·)

/-- `str::split`, for a pattern that is not empty. -/
def split (pat s : List Char) : List (List Char) := splitFrom pat 0 s

/-- A character put before the first line. -/
def consHead (c : Char) : List (List Char) → List (List Char)
  | [] => [[c]]
  | l :: ls => (c :: l) :: ls

/-- `str::lines`: a line end is no part of its line, and there is no line after the last one. -/
def lines : List Char → List (List Char)
  | [] => []
  | c :: cs =>
    if c = '\n' then [] :: lines cs
    else if c = '\r' ∧ cs.head? = some '\n' then lines cs
    else consHead c (lines cs)

theorem splitFrom_append (pat s t : List Char) : splitFrom pat s.length (s ++ t) = split pat t := by
  induction s with
  | nil => rfl
  | cons c s ih => exact ih

theorem split_match {pat : List Char} (hpat : pat ≠ []) (t : List Char) :
    split pat (pat ++ t) = [] :: split pat t := by
  obtain ⟨c, p, rfl⟩ := List.exists_cons_of_ne_nil hpat
  have hpre : (c :: p).isPrefixOf (c :: p ++ t) = true :=
    List.isPrefixOf_iff_prefix.2 (List.prefix_append _ _)
  unfold split
  rw [List.cons_append] at hpre ⊢
  rw [splitFrom, if_pos hpre]
  exact congrArg ([] :: ·) (splitFrom_append (c :: p) p t)

theorem split_skip {pat : List Char} {c : Char} {t : List Char} (h : ¬ pat <+: c :: t) :
    split pat (c :: t) = (split pat t).modifyHead (c :: ·) := by
  unfold split
  rw [splitFrom, if_neg (mt List.isPrefixOf_iff_prefix.1 h)]

theorem split_ne_nil (pat t : List Char) : split pat t ≠ [] := by
  unfold split
  generalize 0 = skip
  induction t generalizing skip with
  | nil => exact List.cons_ne_nil _ _
  | cons c t ih =>
    cases skip with
    | succ skip => exact ih skip
    | zero =>
      rw [splitFrom]
      split_ifs
      · exact List.cons_ne_nil _ _
      · obtain ⟨p, ps, hps⟩ := List.exists_cons_of_ne_nil (ih 0)
        rw [hps]
        exact List.cons_ne_nil _ _

/-- Where a separator begins with a character that a text has not, the text is before the first
separator. -/
theorem split_append {pat : List Char} {x : Char} {l : List Char} (hl : x ∉ l) (t : List Char) :
    split (x :: pat) (l ++ t) = (split (x :: pat) t).modifyHead (l ++ ·) := by
  induction l with
  | nil =>
    obtain ⟨p, ps, hps⟩ := List.exists_cons_of_ne_nil (split_ne_nil (x :: pat) t)
    rw [List.nil_append, hps]
    rfl
  | cons c l ih =>
    rw [List.mem_cons, not_or] at hl
    have hskip : ¬ x :: pat <+: c :: (l ++ t) := fun hpre => hl.1 (List.cons_prefix_cons.1 hpre).1
    obtain ⟨p, ps, hps⟩ := List.exists_cons_of_ne_nil (split_ne_nil (x :: pat) t)
    rw [List.cons_append, split_skip hskip, ih hl.2, hps]
    rfl

/-! ### Lines -/

/-- A text without line ends. -/
def OneLine (l : List Char) : Prop := '\n' ∉ l ∧ '\r' ∉ l

instance (l : List Char) : Decidable (OneLine l) :=
  inferInstanceAs (Decidable ('\n' ∉ l ∧ '\r' ∉ l))

theorem lines_append {l : List Char} (hl : OneLine l) (t : List Char) :
    lines (l ++ '\n' :: t) = l :: lines t := by
  obtain ⟨hlf, hcr⟩ := hl
  induction l with
  | nil => exact if_pos rfl
  | cons c l ih =>
    rw [List.mem_cons, not_or] at hlf hcr
    rw [List.cons_append, lines, if_neg (Ne.symm hlf.1), if_neg (fun h => hcr.1 h.1.symm),
      ih hlf.2 hcr.2]
    rfl

theorem lines_last {q : List Char} (hq : '\n' ∉ q) (hne : q ≠ []) : lines q = [q] := by
  induction q with
  | nil => exact absurd rfl hne
  | cons c q ih =>
    rw [List.mem_cons, not_or] at hq
    have hcr : ¬ (c = '\r' ∧ q.head? = some '\n') := fun h => hq.2 (List.mem_of_mem_head? h.2)
    rw [lines, if_neg (Ne.symm hq.1), if_neg hcr]
    cases q with
    | nil => rfl
    | cons d q =>
      rw [ih hq.2 (List.cons_ne_nil _ _)]
      rfl

/-- Lines with a line feed after each, and what follows the last one. -/
def unlines (K : List (List Char)) (q : List Char) : List Char :=
  K.foldr (fun l t => l ++ '\n' :: t) q

theorem unlines_cons (l : List Char) (K : List (List Char)) (q : List Char) :
    unlines (l :: K) q = l ++ '\n' :: unlines K q := rfl

/-- The paragraphs of lines, `acc` the lines before them: an empty line ends one. -/
def paragraphs (acc : List (List Char)) : List (List Char) → List (List (List Char))
  | [] => [acc]
  | l :: L => if l = [] then acc :: paragraphs [] L else paragraphs (acc ++ [l]) L

def blankLine : List Char := ['\n', '\n']

theorem split_blankLine {l : List Char} (hl : OneLine l) (t : List Char) :
    split blankLine (l ++ '\n' :: '\n' :: t) = l :: split blankLine t := by
  have hmatch : split blankLine (blankLine ++ t) = [] :: split blankLine t :=
    split_match (List.cons_ne_nil _ _) t
  rw [blankLine] at hmatch ⊢
  rw [split_append hl.1]
  rw [List.cons_append, List.singleton_append] at hmatch
  rw [hmatch, List.modifyHead_cons, List.append_nil]

theorem split_line {l t : List Char} (hl : OneLine l) (ht : t.head? ≠ some '\n') :
    split blankLine (l ++ '\n' :: t) = (split blankLine t).modifyHead (l ++ '\n' :: ·) := by
  have hskip : ¬ ['\n', '\n'] <+: '\n' :: t := by
    rw [List.cons_prefix_cons]
    rintro ⟨-, s, rfl⟩
    exact ht rfl
  obtain ⟨p, ps, hps⟩ := List.exists_cons_of_ne_nil (split_ne_nil ['\n', '\n'] t)
  rw [blankLine, split_append hl.1, split_skip hskip, hps]
  rfl

theorem split_last {q : List Char} (hq : '\n' ∉ q) : split blankLine q = [q] := by
  have h : split ['\n', '\n'] (q ++ []) = (split ['\n', '\n'] []).modifyHead (q ++ ·) :=
    split_append hq []
  rw [List.append_nil] at h
  rw [blankLine, h]
  exact congrArg (fun x => [x]) (List.append_nil q)

section

variable {β : Type} (f : List (List Char) → Option β)

/-- What is found first in the pieces, with lines before the first of them. -/
def firstOf (acc : List (List Char)) : List (List Char) → Option β
  | [] => none
  | p :: ps => (f (acc ++ lines p)).or (ps.findSome? fun p => f (lines p))

variable {f}

theorem firstOf_nil_left (pieces : List (List Char)) :
    firstOf f [] pieces = pieces.findSome? fun p => f (lines p) := by
  cases pieces with
  | nil => rfl
  | cons p ps =>
    rw [firstOf, List.nil_append, List.findSome?_cons]
    cases f (lines p) with
    | none => rfl
    | some x => rfl

theorem firstOf_modifyHead {l : List Char} (hl : OneLine l) (acc : List (List Char))
    {pieces : List (List Char)} :
    firstOf f acc (pieces.modifyHead (l ++ '\n' :: ·)) = firstOf f (acc ++ [l]) pieces := by
  cases pieces with
  | nil => rfl
  | cons p ps =>
    rw [List.modifyHead_cons, firstOf, firstOf, lines_append hl, List.append_assoc,
      List.singleton_append]

theorem firstOf_blank (hblank : ∀ a b, f (a ++ [] :: b) = f (a ++ b))
    (acc pieces : List (List Char)) : firstOf f (acc ++ [[]]) pieces = firstOf f acc pieces := by
  cases pieces with
  | nil => rfl
  | cons p ps => rw [firstOf, firstOf, List.append_assoc, List.singleton_append, hblank]

theorem unlines_head {K : List (List Char)} {q : List Char} (hK : ∀ l ∈ K, OneLine l)
    (hq : '\n' ∉ q) (hhead : (K ++ [q]).head? ≠ some []) : (unlines K q).head? ≠ some '\n' := by
  cases K with
  | nil => exact fun h => hq (List.mem_of_mem_head? h)
  | cons l K =>
    cases l with
    | nil => exact absurd rfl hhead
    | cons c l => exact fun h => (hK _ List.mem_cons_self).1 (List.mem_of_mem_head? h)

/-- What is found in the pieces of a text is found in its paragraphs, where empty lines make no
difference to it. -/
theorem firstOf_split (hnil : f [] = none) (hblank : ∀ a b, f (a ++ [] :: b) = f (a ++ b))
    {K : List (List Char)} {q : List Char}
    (hK : ∀ l ∈ K, OneLine l) (hq : '\n' ∉ q) (acc : List (List Char))
    (hacc : acc = [] ∨ (K ++ [q]).head? ≠ some []) :
    firstOf f acc (split blankLine (unlines K q)) = (paragraphs acc (K ++ [q])).findSome? f := by
  induction hn : K.length using Nat.strongRecOn generalizing K acc with
  | ind n ih =>
    subst hn
    cases K with
    | nil =>
      have hsplit : firstOf f acc (split blankLine (unlines [] q)) = f (acc ++ lines q) := by
        rw [unlines, List.foldr_nil, split_last hq, firstOf, List.findSome?_nil, Option.or_none]
      rw [hsplit, List.nil_append, paragraphs]
      by_cases hempty : q = []
      · obtain rfl := hacc.resolve_right fun hne => hne (by rw [hempty]; rfl)
        rw [hempty, if_pos rfl, paragraphs, List.findSome?_cons, List.nil_append, lines, hnil,
          List.findSome?_singleton, hnil]
      · rw [if_neg hempty, lines_last hq hempty, paragraphs, List.findSome?_singleton]
    | cons l K =>
      have hl : OneLine l := hK l List.mem_cons_self
      have hrest : ∀ x ∈ K, OneLine x := fun x hx => hK x (List.mem_cons_of_mem _ hx)
      -- the lines so far, once `l` is one of them
      have hnext : ∀ pieces, (paragraphs acc (l :: (K ++ [q]))).findSome? f
          = (paragraphs (if l = [] then [] else acc ++ [l]) (K ++ [q])).findSome? f ∧
          firstOf f (acc ++ [l]) pieces = firstOf f (if l = [] then [] else acc ++ [l]) pieces := by
        intro pieces
        rw [paragraphs]
        by_cases hempty : l = []
        · obtain rfl := hacc.resolve_right fun hne => hne (by rw [hempty]; rfl)
          rw [if_pos hempty, if_pos hempty, List.findSome?_cons, hnil, hempty, firstOf_blank hblank]
          exact ⟨rfl, rfl⟩
        · rw [if_neg hempty, if_neg hempty]
          exact ⟨rfl, rfl⟩
      rw [List.cons_append, unlines_cons]
      by_cases hhead : (K ++ [q]).head? = some []
      · cases K with
        | nil =>
          obtain rfl : q = [] := Option.some.inj hhead
          have hline := split_line hl (t := []) (by decide)
          rw [unlines, List.foldr_nil, hline, firstOf_modifyHead hl, (hnext _).2, (hnext []).1]
          have hpiece : ∀ acc', firstOf f acc' (split blankLine []) = f acc' := fun acc' => by
            rw [split_last List.not_mem_nil, firstOf, lines, List.append_nil, List.findSome?_nil,
              Option.or_none]
          rw [hpiece, List.nil_append, paragraphs, if_pos rfl, List.findSome?_cons, paragraphs,
            List.findSome?_singleton, hnil]
          cases f (if l = [] then [] else acc ++ [l]) with
          | none => rfl
          | some x => rfl
        | cons l' K =>
          obtain rfl : l' = [] := Option.some.inj hhead
          have hlater :=
            ih K.length (by simp only [List.length_cons]; omega)
            (fun x hx => hrest x (List.mem_cons_of_mem _ hx)) [] (.inl rfl) rfl
          rw [firstOf_nil_left] at hlater
          have hpieces : firstOf f acc (l :: split blankLine (unlines K q))
              = (f (acc ++ lines l)).or ((paragraphs [] (K ++ [q])).findSome? f) := by
            rw [firstOf, hlater]
          have hfirst : f (acc ++ lines l) = f (if l = [] then [] else acc ++ [l]) := by
            by_cases hempty : l = []
            · obtain rfl := hacc.resolve_right fun hne => hne (by rw [hempty]; rfl)
              rw [hempty, if_pos rfl]
              rfl
            · rw [if_neg hempty, lines_last hl.1 hempty]
          rw [unlines_cons, List.nil_append, split_blankLine hl, hpieces, hfirst, (hnext []).1,
            List.cons_append, paragraphs, if_pos rfl, List.findSome?_cons]
          cases f (if l = [] then [] else acc ++ [l]) with
          | none => rfl
          | some x => rfl
      · rw [split_line hl (unlines_head hrest hq hhead), firstOf_modifyHead hl, (hnext _).2,
          (hnext []).1]
        exact ih K.length (Nat.lt_succ_self _) hrest _ (.inr hhead) rfl

theorem findSome?_split (hnil : f [] = none) (hblank : ∀ a b, f (a ++ [] :: b) = f (a ++ b))
    {K : List (List Char)} {q : List Char} (hK : ∀ l ∈ K, OneLine l) (hq : '\n' ∉ q) :
    (split blankLine (unlines K q)).findSome? (fun p => f (lines p)) =
    (paragraphs [] (K ++ [q])).findSome? f := by
  rw [← firstOf_nil_left, firstOf_split hnil hblank hK hq [] (.inl rfl)]

/-- The first paragraph begins with the lines before it. -/
theorem paragraphs_first (acc L : List (List Char)) : ∃ g rest, paragraphs acc L = (acc ++ g) ::
    rest := by
  induction L generalizing acc with
  | nil => exact ⟨[], [], by rw [List.append_nil]; rfl⟩
  | cons l L ih =>
    rw [paragraphs]
    by_cases hl : l = []
    · rw [if_pos hl]
      exact ⟨[], _, by rw [List.append_nil]⟩
    · obtain ⟨g, rest, hg⟩ := ih (acc ++ [l])
      rw [if_neg hl, hg]
      exact ⟨l :: g, rest, by simp⟩

end

/-! ### Cuts -/

def crlf : List Char := ['\r', '\n']

/-- Lines, with a line end of either kind after each, and what follows the last one. -/
def withEnds : List (List Char × Bool) → List Char → List Char
  | [], q => q
  | (l, wide) :: ls, q => l ++ ((if wide then crlf else ['\n']) ++ withEnds ls q)

theorem replace_crlf_append {l : List Char} (hl : '\r' ∉ l) (t : List Char) :
    replace crlf ['\n'] (l ++ t) = l ++ replace crlf ['\n'] t := by
  induction l with
  | nil => rfl
  | cons c l ih =>
    rw [List.mem_cons, not_or] at hl
    have hskip : ¬ crlf <+: c :: (l ++ t) := fun hpre => hl.1 (List.cons_prefix_cons.1 hpre).1
    rw [List.cons_append, replace_skip hskip, ih hl.2]
    rfl

theorem replace_lineEnd (wide : Bool) (t : List Char) :
    replace crlf ['\n'] ((if wide then crlf else ['\n']) ++ t) = '\n' :: replace crlf ['\n'] t := by
  cases wide with
  | true => exact replace_match (List.cons_ne_nil _ _)
  | false => exact replace_crlf_append (l := ['\n']) (by decide) t

theorem replace_withEnds {ls : List (List Char × Bool)} {q : List Char}
    (hls : ∀ x ∈ ls, OneLine x.1) (hq : OneLine q) :
    replace crlf ['\n'] (withEnds ls q) = unlines (ls.map Prod.fst) q := by
  induction ls with
  | nil =>
    have h := replace_crlf_append hq.2 []
    rwa [List.append_nil, replace_nil, List.append_nil] at h
  | cons x ls ih =>
    rw [withEnds, replace_crlf_append (hls x List.mem_cons_self).2, replace_lineEnd,
      ih fun y hy => hls y (List.mem_cons_of_mem _ hy)]
    rfl

/-- A text with line ends that is cut: the lines before the cut, and of the line at the cut a part,
or the line and the first half of its end. -/
theorem replace_cut {ls : List (List Char × Bool)} {last t : List Char}
    (hls : ∀ x ∈ ls, OneLine x.1) (hlast : OneLine last)
    (ht : t <+: withEnds ls last) : ∃ K q l M, replace crlf ['\n'] t = unlines K q ∧
    ls.map Prod.fst ++ [last] = K ++ l :: M ∧
      (q <+: l ∨ q = l ++ ['\r']) := by
  induction ls generalizing t with
  | nil =>
    have hcr : '\r' ∉ t := fun h => hlast.2 (ht.subset h)
    have h := replace_crlf_append hcr []
    rw [List.append_nil, replace_nil, List.append_nil] at h
    exact ⟨[], t, last, [], h, rfl, .inl ht⟩
  | cons x ls ih =>
    obtain ⟨l, wide⟩ := x
    have hl : OneLine l := hls (l, wide) List.mem_cons_self
    have hafter : ∀ t', t' <+: withEnds ls last → t = l ++ ((if wide then crlf else ['\n']) ++ t') →
        ∃ K q l' M,
        replace crlf ['\n'] t = unlines K q ∧ ((l, wide) :: ls).map Prod.fst ++ [last] = K ++
            l' :: M ∧
          (q <+: l' ∨ q = l' ++ ['\r']) := by
      rintro t' ht' rfl
      obtain ⟨K, q, l', M, hreplace, hlines, hq⟩ :=
        ih (fun y hy => hls y (List.mem_cons_of_mem _ hy)) ht'
      refine ⟨l :: K, q, l', M, ?_, ?_, hq⟩
      · rw [replace_crlf_append hl.2, replace_lineEnd, hreplace]
        rfl
      · rw [List.map_cons, List.cons_append, hlines]
        rfl
    have hwithin : t <+: l → ∃ K q l' M, replace crlf ['\n'] t = unlines K q ∧
        ((l, wide) :: ls).map Prod.fst ++ [last] = K ++ l' :: M ∧
        (q <+: l' ∨ q = l' ++ ['\r']) := by
      intro hbefore
      have h := replace_crlf_append (fun hmem => hl.2 (hbefore.subset hmem)) []
      rw [List.append_nil, replace_nil, List.append_nil] at h
      exact ⟨[], t, l, _, h, rfl, .inl hbefore⟩
    obtain ⟨u, hu⟩ := ht
    rw [withEnds] at hu
    rcases List.append_eq_append_iff.1 hu with ⟨u', rfl, -⟩ | ⟨t', rfl, hend⟩
    · exact hwithin (List.prefix_append _ _)
    rcases List.append_eq_append_iff.1 hend with ⟨t'', rfl, hrest⟩ | ⟨e, hsplit, -⟩
    · exact hafter t'' ⟨u, hrest.symm⟩ rfl
    -- within the line end
    cases t' with
    | nil => exact hwithin (by rw [List.append_nil])
    | cons c t' =>
      cases wide with
      | false =>
        obtain ⟨rfl, hnil⟩ := List.cons.inj hsplit
        obtain ⟨rfl, -⟩ := List.append_eq_nil_iff.1 hnil.symm
        exact hafter [] List.nil_prefix rfl
      | true =>
        obtain ⟨rfl, htail⟩ := List.cons.inj hsplit
        cases t' with
        | nil =>
          refine ⟨[], l ++ ['\r'], l, _, ?_, rfl, .inr rfl⟩
          rw [replace_crlf_append hl.2]
          rfl
        | cons c' t' =>
          obtain ⟨rfl, hnil⟩ := List.cons.inj htail
          obtain ⟨rfl, -⟩ := List.append_eq_nil_iff.1 hnil.symm
          exact hafter [] List.nil_prefix rfl

end Text
