import Solo.Lib.Json

/-!
# The grammar of JSON texts

Every text of the grammar is read, with any text after it that can follow (`Grammar.reads`), and
what is read is a text of the grammar (`sound`). So what a value is read from does not depend on
what follows: a text that goes on after a closed value is the text of that value, or of none.
-/

namespace Json

variable {N : Type}

def Blank (ws : List Char) : Prop := ∀ c ∈ ws, isWs c = true

/-- A string without its quotes, and what it stands for. An escape is read in the same way whatever
follows it. -/
inductive Chars : List Char → List Char → Prop
  | nil : Chars [] []
  | plain {b s : List Char} {c : Char} (hquote : c ≠ '"') (hslash : c ≠ '\\') (hcontrol :
    0x20 ≤ c.toNat) (h : Chars b s) :
      Chars (c :: b) (c :: s)
  | escape {b s e : List Char} {c : Char} (he : ∀ t, readEscape (e ++ t) = some (c, t)) (h :
    Chars b s) :
      Chars ('\\' :: (e ++ b)) (c :: s)

/-- What a text can be a text of. -/
inductive Item (N : Type) where
  | value (v : Json N)
  | elem (v : Json N)
  | elems (vs : List (Json N))
  | field (kv : List Char × Json N)
  | fields (kvs : Fields N)

/-- The texts of a value, of an element or member with the blanks around it, and of the rest of an
array or object, with the depth that is left. -/
inductive Grammar (ofLexeme : List Char → Option N) : ℕ → List Char → Item N → Prop
  | null {d} : Grammar ofLexeme d "null".toList (.value .null)
  | true {d} : Grammar ofLexeme d "true".toList (.value (.bool true))
  | false {d} : Grammar ofLexeme d "false".toList (.value (.bool false))
  | num {d} {lexeme : List Char} {n : N} (hchars : ∀ c ∈ lexeme, isNumberChar c = Bool.true)
      (hnumber : isNumber lexeme = Bool.true) (hvalue : ofLexeme lexeme = some n) :
      Grammar ofLexeme d lexeme (.value (.num n))
  | str {d} {b s : List Char} (h : Chars b s) : Grammar ofLexeme d ('"' :: (b ++ ['"']))
    (.value (.str s))
  | arrNil {d} {ws : List Char} (hws : Blank ws) : Grammar ofLexeme (d + 2) ('[' ::
    (ws ++ [']'])) (.value (.arr []))
  | arr {d} {c : List Char} {vs : List (Json N)} (h : Grammar ofLexeme (d + 1) c (.elems vs)) :
      Grammar ofLexeme (d + 2) ('[' :: c) (.value (.arr vs))
  | objNil {d} {ws : List Char} (hws : Blank ws) : Grammar ofLexeme (d + 2) ('{' ::
    (ws ++ ['}'])) (.value (.obj []))
  | obj {d} {c : List Char} {kvs : Fields N} (h : Grammar ofLexeme (d + 1) c (.fields kvs)) :
      Grammar ofLexeme (d + 2) ('{' :: c) (.value (.obj (build kvs)))
  | elem {d} {ws c ws' : List Char} {v : Json N} (hws : Blank ws) (hws' : Blank ws')
      (h : Grammar ofLexeme d c (.value v)) :
      Grammar ofLexeme d (ws ++ c ++ ws') (.elem v)
  | elemsLast {d} {c : List Char} {v : Json N} (h : Grammar ofLexeme d c (.elem v)) :
      Grammar ofLexeme d (c ++ [']']) (.elems [v])
  | elemsCons {d} {c c' : List Char} {v : Json N} {vs : List (Json N)} (h : Grammar ofLexeme d c (.elem v))
      (hs : Grammar ofLexeme d c' (.elems vs)) : Grammar ofLexeme d (c ++ ',' :: c') (.elems (v :: vs))
  | field {d} {ws b ws' c : List Char} {key : List Char} {v : Json N} (hws : Blank ws)
      (hkey : Chars b key) (hws' : Blank ws')
      (h : Grammar ofLexeme d c (.elem v)) :
      Grammar ofLexeme d (ws ++ '"' :: (b ++ '"' :: (ws' ++ ':' :: c))) (.field (key, v))
  | fieldsLast {d} {c : List Char} {kv : List Char × Json N} (h : Grammar ofLexeme d c (.field kv)) :
      Grammar ofLexeme d (c ++ ['}']) (.fields [kv])
  | fieldsCons {d} {c c' : List Char} {kv : List Char × Json N} {kvs : Fields N} (h :
    Grammar ofLexeme d c (.field kv))
      (hs : Grammar ofLexeme d c' (.fields kvs)) :
      Grammar ofLexeme d (c ++ ',' :: c') (.fields (kv :: kvs))

/-! ### Pieces -/

theorem skipWs_append {ws : List Char} (hws : Blank ws) (cs : List Char) :
    skipWs (ws ++ cs) = skipWs cs :=
  List.dropWhile_append_of_pos hws

theorem skipWs_cons {c : Char} (hc : isWs c = false) (cs : List Char) :
    skipWs (c :: cs) = c :: cs :=
  List.dropWhile_cons_of_neg (by simp [hc])

theorem skipWs_split (cs : List Char) : ∃ ws, cs = ws ++ skipWs cs ∧ Blank ws :=
  ⟨cs.takeWhile isWs, (List.takeWhile_append_dropWhile ..).symm,
    fun _ hc => List.mem_takeWhile_imp hc⟩

theorem expect_complete {c : Char} (hc : isWs c = false) {ws : List Char} (hws : Blank ws)
    (t : List Char) : expect c (ws ++ c :: t) = some t := by
  unfold expect
  rw [skipWs_append hws, skipWs_cons hc]
  exact if_pos rfl

theorem expect_sound {c : Char} {cs rest : List Char} (h : expect c cs = some rest) :
    ∃ ws, cs = ws ++ c :: rest ∧ Blank ws := by
  obtain ⟨ws, hcs, hws⟩ := skipWs_split cs
  unfold expect at h
  cases hskip : skipWs cs with
  | nil =>
    rw [hskip] at h
    cases h
  | cons x cs' =>
    rw [hskip] at h hcs
    dsimp only at h
    split_ifs at h with hx
    rw [hx, Option.some.inj h] at hcs
    exact ⟨ws, hcs, hws⟩

/-- Another character comes next. -/
theorem expect_none {c x : Char} (hx : isWs x = false) (hne : x ≠ c) {ws : List Char}
    (hws : Blank ws) (t : List Char) : expect c (ws ++ x :: t) = none := by
  unfold expect
  rw [skipWs_append hws, skipWs_cons hx]
  exact if_neg hne

theorem hex4_spec {cs rest : List Char} {n : ℕ} (h : hex4 cs = some (n, rest)) :
    ∃ e, cs = e ++ rest ∧ ∀ t, hex4 (e ++ t) = some (n, t) := by
  unfold hex4 at h
  split at h
  · rename_i a b c d rest'
    simp only [Option.bind_eq_bind, Option.bind_eq_some_iff, Option.pure_def, Option.some.injEq,
      Prod.mk.injEq] at h
    obtain ⟨a', ha, b', hb, c', hc, d', hd, rfl, rfl⟩ := h
    refine ⟨[a, b, c, d], rfl, fun t => ?_⟩
    simp only [List.cons_append, List.nil_append, hex4, ha, hb, hc, hd, Option.bind_eq_bind,
      Option.bind_some, Option.pure_def]
  · cases h

theorem lowSurrogate_spec {n : ℕ} {cs rest : List Char} {c : Char}
    (h : lowSurrogate n cs = some (c, rest)) :
    ∃ e, cs = e ++ rest ∧ ∀ t, lowSurrogate n (e ++ t) = some (c, t) := by
  unfold lowSurrogate at h
  split at h
  · rename_i cs'
    simp only [Option.bind_eq_bind, Option.bind_eq_some_iff] at h
    obtain ⟨⟨m, rest'⟩, hm, hlow⟩ := h
    obtain ⟨e, rfl, hread⟩ := hex4_spec hm
    dsimp only at hlow
    split_ifs at hlow with hrange
    simp only [Option.some.injEq, Prod.mk.injEq] at hlow
    obtain ⟨rfl, rfl⟩ := hlow
    refine ⟨'\\' :: 'u' :: e, rfl, fun t => ?_⟩
    simp only [List.cons_append, lowSurrogate, hread, Option.bind_eq_bind, Option.bind_some,
      if_pos hrange]
  · cases h

/-- What an escape stands for does not depend on what follows it. -/
theorem readEscape_spec {cs rest : List Char} {c : Char} (h : readEscape cs = some (c, rest)) :
    ∃ e, cs = e ++ rest ∧ ∀ t, readEscape (e ++ t) = some (c, t) := by
  cases cs with
  | nil => cases h
  | cons x cs =>
    rw [readEscape] at h
    by_cases hx : x = 'u'
    · rw [if_pos hx] at h
      simp only [Option.bind_eq_bind, Option.bind_eq_some_iff] at h
      obtain ⟨⟨n, cs'⟩, hn, h⟩ := h
      obtain ⟨e, rfl, hread⟩ := hex4_spec hn
      dsimp only at h
      by_cases hhigh : 0xD800 ≤ n ∧ n < 0xDC00
      · rw [if_pos hhigh] at h
        obtain ⟨e', rfl, hlow⟩ := lowSurrogate_spec h
        refine ⟨x :: (e ++ e'), by simp, fun t => ?_⟩
        rw [List.cons_append, readEscape, if_pos hx, List.append_assoc, hread]
        simp only [Option.bind_eq_bind, Option.bind_some, if_pos hhigh, hlow]
      · rw [if_neg hhigh] at h
        by_cases hlow : 0xDC00 ≤ n ∧ n < 0xE000
        · rw [if_pos hlow] at h
          cases h
        · rw [if_neg hlow] at h
          simp only [Option.some.injEq, Prod.mk.injEq] at h
          obtain ⟨rfl, rfl⟩ := h
          refine ⟨x :: e, rfl, fun t => ?_⟩
          rw [List.cons_append, readEscape, if_pos hx, hread]
          simp only [Option.bind_eq_bind, Option.bind_some, if_neg hhigh, if_neg hlow]
    · rw [if_neg hx] at h
      obtain ⟨d, hd, heq⟩ := Option.map_eq_some_iff.1 h
      obtain ⟨rfl, rfl⟩ := Prod.mk.inj heq
      refine ⟨[x], rfl, fun t => ?_⟩
      rw [List.singleton_append, readEscape, if_neg hx, hd]
      rfl

theorem readString_complete {b s : List Char} (h : Chars b s) {n : ℕ} (hn : b.length < n)
    (t : List Char) : readString n (b ++ '"' :: t) = some (s, t) := by
  induction h generalizing n with
  | nil =>
    obtain ⟨n, rfl⟩ := Nat.exists_eq_succ_of_ne_zero (Nat.ne_zero_of_lt hn)
    rfl
  | @plain b s c hquote hslash hcontrol h ih =>
    obtain ⟨n, rfl⟩ := Nat.exists_eq_succ_of_ne_zero (Nat.ne_zero_of_lt hn)
    have hrest := ih (Nat.lt_of_succ_lt_succ hn)
    rw [List.cons_append, readString, if_neg hquote, if_neg hslash, if_neg (Nat.not_lt.2 hcontrol),
      hrest]
    rfl
  | @escape b s e c he h ih =>
    obtain ⟨n, rfl⟩ := Nat.exists_eq_succ_of_ne_zero (Nat.ne_zero_of_lt hn)
    have hlength : b.length < n := by
      rw [List.length_cons, List.length_append] at hn
      omega
    rw [List.cons_append, readString, if_neg (by decide), if_pos rfl, List.append_assoc, he]
    simp only [Option.bind_eq_bind, Option.bind_some, ih hlength, Option.pure_def]

theorem readString_sound {n : ℕ} {cs s rest : List Char} (h : readString n cs = some (s, rest)) :
    ∃ b, cs = b ++ '"' :: rest ∧ Chars b s := by
  induction n generalizing cs s with
  | zero => cases h
  | succ n ih =>
    cases cs with
    | nil => cases h
    | cons c cs =>
      rw [readString] at h
      by_cases hquote : c = '"'
      · rw [if_pos hquote] at h
        simp only [Option.some.injEq, Prod.mk.injEq] at h
        obtain ⟨rfl, rfl⟩ := h
        exact ⟨[], by rw [hquote]; rfl, .nil⟩
      rw [if_neg hquote] at h
      by_cases hslash : c = '\\'
      · rw [if_pos hslash] at h
        simp only [Option.bind_eq_bind, Option.bind_eq_some_iff, Option.pure_def, Option.some.injEq,
          Prod.mk.injEq] at h
        obtain ⟨⟨x, cs'⟩, hx, ⟨s', rest'⟩, hs, rfl, rfl⟩ := h
        obtain ⟨e, rfl, he⟩ := readEscape_spec hx
        obtain ⟨b, rfl, hb⟩ := ih hs
        exact ⟨'\\' :: (e ++ b), by rw [hslash]; simp, .escape he hb⟩
      rw [if_neg hslash] at h
      by_cases hcontrol : c.toNat < 0x20
      · rw [if_pos hcontrol] at h
        cases h
      · rw [if_neg hcontrol] at h
        simp only [Option.bind_eq_bind, Option.bind_eq_some_iff, Option.pure_def, Option.some.injEq,
          Prod.mk.injEq] at h
        obtain ⟨⟨s', rest'⟩, hs, rfl, rfl⟩ := h
        obtain ⟨b, rfl, hb⟩ := ih hs
        exact ⟨c :: b, rfl, .plain hquote hslash (Nat.not_lt.1 hcontrol) hb⟩

/-- No character of numbers follows. -/
def Ends (t : List Char) : Prop := ∀ c ∈ t.head?, isNumberChar c = false

theorem takeWhile_number {lexeme t : List Char} (hchars : ∀ c ∈ lexeme, isNumberChar c = true)
    (ht : Ends t) :
    (lexeme ++ t).takeWhile isNumberChar = lexeme ∧ (lexeme ++ t).dropWhile isNumberChar = t := by
  rw [List.takeWhile_append_of_pos hchars, List.dropWhile_append_of_pos hchars]
  cases t with
  | nil => exact ⟨List.append_nil _, rfl⟩
  | cons c t =>
    have hc : ¬ isNumberChar c = true := by simp [ht c rfl]
    rw [List.takeWhile_cons_of_neg hc, List.dropWhile_cons_of_neg hc, List.append_nil]
    exact ⟨rfl, rfl⟩

variable {ofLexeme : List Char → Option N}

theorem readNumber_complete {lexeme t : List Char} {n : N}
    (hchars : ∀ c ∈ lexeme, isNumberChar c = true)
    (hnumber : isNumber lexeme = true) (hvalue : ofLexeme lexeme = some n) (ht : Ends t) :
    readNumber ofLexeme (lexeme ++ t) = some (n, t) := by
  obtain ⟨htake, hdrop⟩ := takeWhile_number hchars ht
  unfold readNumber
  dsimp only
  rw [htake, hdrop, if_pos hnumber, hvalue]
  rfl

theorem readNumber_sound {cs rest : List Char} {n : N}
    (h : readNumber ofLexeme cs = some (n, rest)) : ∃ lexeme,
    cs = lexeme ++ rest ∧ (∀ c ∈ lexeme, isNumberChar c = true) ∧ isNumber lexeme = true ∧
    ofLexeme lexeme = some n ∧
      Ends rest := by
  unfold readNumber at h
  dsimp only at h
  split_ifs at h with hnumber
  obtain ⟨m, hvalue, heq⟩ := Option.map_eq_some_iff.1 h
  obtain ⟨rfl, rfl⟩ := Prod.mk.inj heq
  refine ⟨cs.takeWhile isNumberChar, (List.takeWhile_append_dropWhile ..).symm,
    fun _ hc => List.mem_takeWhile_imp hc, hnumber, hvalue, fun c hc => ?_⟩
  by_contra hnot
  rw [Bool.not_eq_false] at hnot
  cases hdrop : cs.dropWhile isNumberChar with
  | nil =>
    rw [hdrop] at hc
    cases hc
  | cons d ds =>
    rw [hdrop, List.head?_cons, Option.mem_def, Option.some.injEq] at hc
    subst hc
    have hne : cs.dropWhile isNumberChar ≠ [] := by
      rw [hdrop]
      exact List.cons_ne_nil _ _
    have hhead := List.head_dropWhile_not isNumberChar hne
    simp only [hdrop, List.head_cons] at hhead
    rw [hnot] at hhead
    cases hhead

/-- A number begins with a digit or a minus sign. -/
theorem isNumber_head {lexeme : List Char} (h : isNumber lexeme = true) :
    ∃ c cs, lexeme = c :: cs ∧ (c = '-' ∨ c.isDigit = true) := by
  cases lexeme with
  | nil => cases h
  | cons c cs =>
    refine ⟨c, cs, rfl, ?_⟩
    by_cases hminus : c = '-'
    · exact .inl hminus
    right
    by_contra hdigit
    unfold isNumber at h
    have hhead : ¬ (c :: cs).head? = some '-' := fun heq => hminus (Option.some.inj heq)
    rw [if_neg hhead] at h
    dsimp only at h
    rw [List.takeWhile_cons_of_neg hdigit] at h
    cases h

theorem readLiteral_sound {cs rest : List Char} {v : Json N} (h : readLiteral cs = some (v, rest)) :
    ∃ c, cs = c ++ rest ∧ ((c = "null".toList ∧ v = .null) ∨ (c = "true".toList ∧ v = .bool true) ∨
      (c = "false".toList ∧ v = .bool false)) := by
  have hsplit {word : List Char} {k : ℕ} (hk : word.length = k)
      (hword : word.isPrefixOf cs = true) : cs = word ++ cs.drop k := by
    obtain ⟨t, rfl⟩ := List.isPrefixOf_iff_prefix.1 hword
    rw [← hk, List.drop_left]
  unfold readLiteral at h
  split_ifs at h with hnull htrue hfalse
  · obtain ⟨rfl, rfl⟩ := Prod.mk.inj (Option.some.inj h)
    exact ⟨_, hsplit (by decide) hnull, .inl ⟨rfl, rfl⟩⟩
  · obtain ⟨rfl, rfl⟩ := Prod.mk.inj (Option.some.inj h)
    exact ⟨_, hsplit (by decide) htrue, .inr (.inl ⟨rfl, rfl⟩)⟩
  · obtain ⟨rfl, rfl⟩ := Prod.mk.inj (Option.some.inj h)
    exact ⟨_, hsplit (by decide) hfalse, .inr (.inr ⟨rfl, rfl⟩)⟩

theorem readKey_complete {ws b ws' key : List Char} (hws : Blank ws) (hkey : Chars b key)
    (hws' : Blank ws') (t : List Char) :
    readKey (ws ++ '"' :: (b ++ '"' :: (ws' ++ ':' :: t))) = some (key, t) := by
  have hlength : b.length < (b ++ '"' :: (ws' ++ ':' :: t)).length + 1 := by
    rw [List.length_append]
    omega
  simp only [readKey, expect_complete (c := '"') (by decide) hws, readString_complete hkey hlength,
    expect_complete (c := ':') (by decide) hws', Option.bind_eq_bind, Option.bind_some,
      Option.pure_def]

theorem readKey_sound {cs rest key : List Char} (h : readKey cs = some (key, rest)) : ∃ ws b ws',
    cs = ws ++ '"' :: (b ++ '"' :: (ws' ++ ':' :: rest)) ∧ Blank ws ∧ Chars b key ∧ Blank ws' := by
  simp only [readKey, Option.bind_eq_bind, Option.bind_eq_some_iff, Option.pure_def,
    Option.some.injEq, Prod.mk.injEq] at h
  obtain ⟨cs₁, hquote, ⟨key', cs₂⟩, hstring, cs₃, hcolon, rfl, rfl⟩ := h
  obtain ⟨ws, rfl, hws⟩ := expect_sound hquote
  obtain ⟨b, rfl, hb⟩ := readString_sound hstring
  obtain ⟨ws', rfl, hws'⟩ := expect_sound hcolon
  exact ⟨ws, b, ws', rfl, hws, hb, hws'⟩

/-! ### Every text of the grammar is read -/

/-- How a text begins. -/
def Starts (c : List Char) : Item N → Prop
  | .value _ => ∃ x c', c = x :: c' ∧ isWs x = false ∧ x ≠ ']'
  | .elem _ | .elems _ => ∃ ws x c', c = ws ++ x :: c' ∧ Blank ws ∧ isWs x = false ∧ x ≠ ']'
  | .field _ | .fields _ => ∃ ws c', c = ws ++ '"' :: c' ∧ Blank ws

theorem Grammar.starts {d : ℕ} {c : List Char} {item : Item N} (h : Grammar ofLexeme d c item) :
    Starts c item := by
  induction h with
  | null => exact ⟨'n', _, rfl, by decide, by decide⟩
  | true => exact ⟨'t', _, rfl, by decide, by decide⟩
  | false => exact ⟨'f', _, rfl, by decide, by decide⟩
  | num hchars hnumber hvalue =>
    obtain ⟨x, c', rfl, hx⟩ := isNumber_head hnumber
    refine ⟨x, c', rfl, ?_, ?_⟩
    · have hnum := hchars x List.mem_cons_self
      by_contra hws
      rw [Bool.not_eq_false] at hws
      simp only [isWs, Bool.or_eq_true, decide_eq_true_eq] at hws
      rcases hws with ((rfl | rfl) | rfl) | rfl <;> exact absurd hnum (by decide)
    · rintro rfl
      exact absurd (hchars ']' List.mem_cons_self) (by decide)
  | str h => exact ⟨'"', _, rfl, by decide, by decide⟩
  | arrNil hws => exact ⟨'[', _, rfl, by decide, by decide⟩
  | arr h ih => exact ⟨'[', _, rfl, by decide, by decide⟩
  | objNil hws => exact ⟨'\x7b', _, rfl, by decide, by decide⟩
  | obj h ih => exact ⟨'\x7b', _, rfl, by decide, by decide⟩
  | @elem d ws c ws' v hws hws' h ih =>
    obtain ⟨x, c', rfl, hx, hne⟩ := ih
    exact ⟨ws, x, c' ++ ws', by simp, hws, hx, hne⟩
  | elemsLast h ih =>
    obtain ⟨ws, x, c', rfl, hws, hx, hne⟩ := ih
    exact ⟨ws, x, c' ++ [']'], by simp, hws, hx, hne⟩
  | @elemsCons d c c'' v vs h hs ih ihs =>
    obtain ⟨ws, x, c', rfl, hws, hx, hne⟩ := ih
    exact ⟨ws, x, c' ++ ',' :: c'', by simp, hws, hx, hne⟩
  | field hws hkey hws' h ih => exact ⟨_, _, rfl, hws⟩
  | fieldsLast h ih =>
    obtain ⟨ws, c', rfl, hws⟩ := ih
    exact ⟨ws, c' ++ ['\x7d'], by simp, hws⟩
  | @fieldsCons d c c'' kv kvs h hs ih ihs =>
    obtain ⟨ws, c', rfl, hws⟩ := ih
    exact ⟨ws, c' ++ ',' :: c'', by simp, hws⟩

/-- What follows an element or a member: something that is neither blank nor a character of
numbers. -/
def Delimited (t : List Char) : Prop :=
  ∃ x t', t = x :: t' ∧ isWs x = false ∧ isNumberChar x = false

/-- A text is read with every text after it that can follow, given fuel for its length. -/
def Reads (ofLexeme : List Char → Option N) (d : ℕ) (c : List Char) : Item N → Prop
  | .value v => ∀ n ws t, Blank ws → 2 * c.length ≤ n → (v.isNum = true → Ends t) →
      readValue ofLexeme n d (ws ++ (c ++ t)) = some (v, t)
  | .elem v => ∀ n t, Delimited t → 2 * c.length ≤ n →
      ∃ ws, Blank ws ∧ readValue ofLexeme n d (c ++ t) = some (v, ws ++ t)
  | .elems vs => ∀ n t, 2 * c.length + 1 ≤ n → readElems ofLexeme n d (c ++ t) = some (vs, t)
  | .field kv => ∀ n t, Delimited t → 2 * c.length ≤ n → ∃ cs ws, Blank ws ∧
    readKey (c ++ t) = some (kv.1, cs) ∧
      readValue ofLexeme n d cs = some (kv.2, ws ++ t)
  | .fields kvs => ∀ n t, 2 * c.length + 1 ≤ n → readFields ofLexeme n d (c ++ t) = some (kvs, t)

theorem ends_of_blank {ws t : List Char} (hws : Blank ws) (ht : Delimited t) : Ends (ws ++ t) := by
  obtain ⟨x, t', rfl, hx, hnum⟩ := ht
  intro c hc
  cases ws with
  | nil =>
    obtain rfl := Option.some.inj hc
    exact hnum
  | cons w ws =>
    obtain rfl := Option.some.inj hc
    have hw := hws w List.mem_cons_self
    simp only [isWs, Bool.or_eq_true, decide_eq_true_eq] at hw
    rcases hw with ((rfl | rfl) | rfl) | rfl <;> decide

theorem isWs_of_isNumberChar {c : Char} (hc : isNumberChar c = true) : isWs c = false := by
  by_contra hws
  rw [Bool.not_eq_false] at hws
  simp only [isWs, Bool.or_eq_true, decide_eq_true_eq] at hws
  rcases hws with ((rfl | rfl) | rfl) | rfl <;> exact absurd hc (by decide)

theorem succ_of_fuel {k n : ℕ} (hk : 0 < k) (hn : 2 * k ≤ n) : ∃ m, n = m + 1 :=
  Nat.exists_eq_succ_of_ne_zero (by omega)

theorem Grammar.reads {d : ℕ} {c : List Char} {item : Item N} (h : Grammar ofLexeme d c item) :
    Reads ofLexeme d c item := by
  induction h with
  | null =>
    intro n ws t hws hn _
    obtain ⟨n, rfl⟩ :=
      Nat.exists_eq_succ_of_ne_zero (show n ≠ 0 by rintro rfl; exact absurd hn (by decide))
    rw [readValue, skipWs_append hws]
    rfl
  | true =>
    intro n ws t hws hn _
    obtain ⟨n, rfl⟩ :=
      Nat.exists_eq_succ_of_ne_zero (show n ≠ 0 by rintro rfl; exact absurd hn (by decide))
    rw [readValue, skipWs_append hws]
    rfl
  | false =>
    intro n ws t hws hn _
    obtain ⟨n, rfl⟩ :=
      Nat.exists_eq_succ_of_ne_zero (show n ≠ 0 by rintro rfl; exact absurd hn (by decide))
    rw [readValue, skipWs_append hws]
    rfl
  | @num d lexeme m hchars hnumber hvalue =>
    intro n ws t hws hn hends
    obtain ⟨x, cs, rfl, hx⟩ := isNumber_head hnumber
    obtain ⟨n, rfl⟩ := succ_of_fuel (Nat.zero_lt_succ _) hn
    have hnum := hchars x List.mem_cons_self
    have hread := readNumber_complete hchars hnumber hvalue (hends rfl)
    rw [readValue, skipWs_append hws, List.cons_append, skipWs_cons (isWs_of_isNumberChar hnum)]
    dsimp only
    rw [if_neg (by rintro rfl; exact absurd hnum (by decide)),
      if_neg (by rintro rfl; exact absurd hnum (by decide)),
      if_neg (by rintro rfl; exact absurd hnum (by decide)), if_pos (by simpa using hx),
        ← List.cons_append, hread]
    rfl
  | @str d b s h =>
    intro n ws t hws hn _
    obtain ⟨n, rfl⟩ := succ_of_fuel (Nat.zero_lt_succ _) hn
    have hlength : b.length < (b ++ '"' :: t).length + 1 := by
      rw [List.length_append]
      omega
    rw [readValue, skipWs_append hws, List.cons_append, skipWs_cons (by decide), List.append_assoc,
      List.singleton_append]
    dsimp only
    rw [if_pos rfl, readString_complete h hlength]
    rfl
  | @arrNil d ws' hws' =>
    intro n ws t hws hn _
    obtain ⟨n, rfl⟩ := succ_of_fuel (Nat.zero_lt_succ _) hn
    rw [readValue, skipWs_append hws, List.cons_append, skipWs_cons (by decide), List.append_assoc,
      List.singleton_append]
    dsimp only
    rw [if_neg (by decide), if_pos rfl, if_neg (by omega), expect_complete (by decide) hws']
  | @arr d c vs h ih =>
    intro n ws t hws hn _
    obtain ⟨n, rfl⟩ := succ_of_fuel (Nat.zero_lt_succ _) hn
    have hfuel : 2 * c.length + 1 ≤ n := by
      rw [List.length_cons] at hn
      omega
    obtain ⟨ws', x, c', rfl, hws', hx, hne⟩ := h.starts
    have hclose : expect ']' (ws' ++ x :: c' ++ t) = none := by
      rw [List.append_assoc, List.cons_append]
      exact expect_none hx hne hws' _
    rw [readValue, skipWs_append hws, List.cons_append, skipWs_cons (by decide)]
    dsimp only
    rw [if_neg (by decide), if_pos rfl, if_neg (by omega), hclose]
    dsimp only
    rw [Nat.add_sub_assoc (by decide) d, ih n t hfuel]
    rfl
  | @objNil d ws' hws' =>
    intro n ws t hws hn _
    obtain ⟨n, rfl⟩ := succ_of_fuel (Nat.zero_lt_succ _) hn
    rw [readValue, skipWs_append hws, List.cons_append, skipWs_cons (by decide), List.append_assoc,
      List.singleton_append]
    dsimp only
    rw [if_neg (by decide), if_neg (by decide), if_pos rfl, if_neg (by omega),
      expect_complete (by decide) hws']
  | @obj d c kvs h ih =>
    intro n ws t hws hn _
    obtain ⟨n, rfl⟩ := succ_of_fuel (Nat.zero_lt_succ _) hn
    have hfuel : 2 * c.length + 1 ≤ n := by
      rw [List.length_cons] at hn
      omega
    obtain ⟨ws', c', rfl, hws'⟩ := h.starts
    have hclose : expect '\x7d' (ws' ++ '"' :: c' ++ t) = none := by
      rw [List.append_assoc, List.cons_append]
      exact expect_none (by decide) (by decide) hws' _
    rw [readValue, skipWs_append hws, List.cons_append, skipWs_cons (by decide)]
    dsimp only
    rw [if_neg (by decide), if_neg (by decide), if_pos rfl, if_neg (by omega), hclose]
    dsimp only
    rw [Nat.add_sub_assoc (by decide) d, ih n t hfuel]
    rfl
  | @elem d ws c ws' v hws hws' h ih =>
    intro n t ht hn
    have hfuel : 2 * c.length ≤ n := by
      rw [List.length_append, List.length_append] at hn
      omega
    have hread := ih n ws (ws' ++ t) hws hfuel fun _ => ends_of_blank hws' ht
    exact ⟨ws', hws', by rw [List.append_assoc, List.append_assoc]; exact hread⟩
  | @elemsLast d c v h ih =>
    intro n t hn
    obtain ⟨n, rfl⟩ := Nat.exists_eq_succ_of_ne_zero (Nat.ne_zero_of_lt hn)
    have hfuel : 2 * c.length ≤ n := by
      rw [List.length_append] at hn
      omega
    obtain ⟨ws, hws, hread⟩ := ih n (']' :: t) ⟨_, _, rfl, by decide, by decide⟩ hfuel
    rw [readElems, List.append_assoc, List.singleton_append, hread]
    simp only [Option.bind_eq_bind, Option.bind_some, expect_none (c := ',') (x := ']') (by decide)
      (by decide) hws, expect_complete (c := ']') (by decide) hws, Option.map_some]
  | @elemsCons d c c' v vs h hs ih ihs =>
    intro n t hn
    obtain ⟨n, rfl⟩ := Nat.exists_eq_succ_of_ne_zero (Nat.ne_zero_of_lt hn)
    rw [List.length_append, List.length_cons] at hn
    obtain ⟨ws, hws, hread⟩ := ih n (',' :: (c' ++ t)) ⟨_, _, rfl, by decide, by decide⟩ (by omega)
    rw [readElems, List.append_assoc, List.cons_append, hread]
    simp only [Option.bind_eq_bind, Option.bind_some, expect_complete (c := ',') (by decide) hws,
      ihs n t (by omega), Option.map_some]
  | @field d ws b ws' c key v hws hkey hws' h ih =>
    intro n t ht hn
    have hfuel : 2 * c.length ≤ n := by
      simp only [List.length_append, List.length_cons] at hn
      omega
    obtain ⟨ws₂, hws₂, hread⟩ := ih n t ht hfuel
    refine ⟨c ++ t, ws₂, hws₂, ?_, hread⟩
    have hsplit : ws ++ '"' :: (b ++ '"' :: (ws' ++ ':' :: c)) ++ t
        = ws ++ '"' :: (b ++ '"' :: (ws' ++ ':' :: (c ++ t))) := by
      simp only [List.append_assoc, List.cons_append]
    rw [hsplit]
    exact readKey_complete hws hkey hws' _
  | @fieldsLast d c kv h ih =>
    intro n t hn
    obtain ⟨n, rfl⟩ := Nat.exists_eq_succ_of_ne_zero (Nat.ne_zero_of_lt hn)
    have hfuel : 2 * c.length ≤ n := by
      rw [List.length_append] at hn
      omega
    obtain ⟨cs, ws, hws, hkey, hread⟩ := ih n ('\x7d' :: t) ⟨_, _, rfl, by decide, by decide⟩ hfuel
    rw [readFields, List.append_assoc, List.singleton_append, hkey]
    simp only [Option.bind_eq_bind, Option.bind_some, hread,
      expect_none (c := ',') (x := '\x7d') (by decide) (by decide) hws,
      expect_complete (c := '\x7d') (by decide) hws, Option.map_some]
  | @fieldsCons d c c' kv kvs h hs ih ihs =>
    intro n t hn
    obtain ⟨n, rfl⟩ := Nat.exists_eq_succ_of_ne_zero (Nat.ne_zero_of_lt hn)
    rw [List.length_append, List.length_cons] at hn
    obtain ⟨cs, ws, hws, hkey, hread⟩ :=
      ih n (',' :: (c' ++ t)) ⟨_, _, rfl, by decide, by decide⟩ (by omega)
    rw [readFields, List.append_assoc, List.cons_append, hkey]
    simp only [Option.bind_eq_bind, Option.bind_some, hread, expect_complete (c := ',') (by decide)
      hws, ihs n t (by omega), Option.map_some]

/-! ### What is read is a text of the grammar -/

/-- What was read is a text of the grammar. A number was read up to a character that is none of its
own. -/
def Sound (ofLexeme : List Char → Option N) (n : ℕ) : Prop :=
  (∀ d cs v rest, readValue ofLexeme n d cs = some (v, rest) → ∃ ws c, cs = ws ++ (c ++ rest) ∧
    Blank ws ∧
      Grammar ofLexeme d c (.value v) ∧ (v.isNum = true → Ends rest)) ∧
    (∀ d cs vs rest, readElems ofLexeme n d cs = some (vs, rest) → ∃ c, cs = c ++ rest ∧
      Grammar ofLexeme d c (.elems vs)) ∧
    ∀ d cs kvs rest, readFields ofLexeme n d cs = some (kvs, rest) → ∃ c, cs = c ++ rest ∧
    Grammar ofLexeme d c (.fields kvs)

theorem readLiteral_grammar {cs rest : List Char} {v : Json N} (d : ℕ)
    (h : readLiteral cs = some (v, rest)) :
    ∃ c, cs = c ++ rest ∧ Grammar ofLexeme d c (.value v) ∧ v.isNum = false := by
  obtain ⟨c, hcs, ⟨rfl, rfl⟩ | ⟨rfl, rfl⟩ | ⟨rfl, rfl⟩⟩ := readLiteral_sound h
  · exact ⟨_, hcs, .null, rfl⟩
  · exact ⟨_, hcs, .true, rfl⟩
  · exact ⟨_, hcs, .false, rfl⟩

theorem readValue_sound {n : ℕ} (hn : Sound ofLexeme n) {d : ℕ} {cs rest : List Char} {v : Json N}
    (h : readValue ofLexeme (n + 1) d cs = some (v, rest)) : ∃ ws c, cs = ws ++ (c ++ rest) ∧
    Blank ws ∧
      Grammar ofLexeme d c (.value v) ∧ (v.isNum = true → Ends rest) := by
  obtain ⟨-, helems, hfields⟩ := hn
  obtain ⟨ws, hcs, hws⟩ := skipWs_split cs
  rw [readValue] at h
  cases hskip : skipWs cs with
  | nil =>
    rw [hskip] at h
    cases h
  | cons x cs' =>
    rw [hskip] at h hcs
    dsimp only at h
    refine ⟨ws, ?_⟩
    by_cases hquote : x = '"'
    · rw [if_pos hquote] at h
      obtain ⟨⟨s, rest'⟩, hs, heq⟩ := Option.map_eq_some_iff.1 h
      obtain ⟨rfl, rfl⟩ := Prod.mk.inj heq
      obtain ⟨b, rfl, hb⟩ := readString_sound hs
      exact ⟨'"' ::
        (b ++ ['"']), by rw [hcs, hquote]; simp, hws, .str hb, fun hnum => by cases hnum⟩
    rw [if_neg hquote] at h
    by_cases harr : x = '['
    · rw [if_pos harr] at h
      split_ifs at h with hd
      obtain ⟨d, rfl⟩ : ∃ d', d = d' + 2 := ⟨d - 2, by omega⟩
      cases hclose : expect ']' cs' with
      | some rest' =>
        rw [hclose] at h
        obtain ⟨rfl, rfl⟩ := Prod.mk.inj (Option.some.inj h)
        obtain ⟨ws', rfl, hws'⟩ := expect_sound hclose
        exact ⟨'[' ::
          (ws' ++ [']']), by rw [hcs, harr]; simp, hws, .arrNil hws', fun hnum => by cases hnum⟩
      | none =>
        rw [hclose] at h
        obtain ⟨⟨vs, rest'⟩, hvs, heq⟩ := Option.map_eq_some_iff.1 h
        obtain ⟨rfl, rfl⟩ := Prod.mk.inj heq
        obtain ⟨c, rfl, hc⟩ := helems _ _ _ _ hvs
        exact ⟨'[' :: c, by rw [hcs, harr]; simp, hws, .arr hc, fun hnum => by cases hnum⟩
    rw [if_neg harr] at h
    by_cases hobj : x = '\x7b'
    · rw [if_pos hobj] at h
      split_ifs at h with hd
      obtain ⟨d, rfl⟩ : ∃ d', d = d' + 2 := ⟨d - 2, by omega⟩
      cases hclose : expect '\x7d' cs' with
      | some rest' =>
        rw [hclose] at h
        obtain ⟨rfl, rfl⟩ := Prod.mk.inj (Option.some.inj h)
        obtain ⟨ws', rfl, hws'⟩ := expect_sound hclose
        exact ⟨'\x7b' ::
          (ws' ++ ['\x7d']), by rw [hcs, hobj]; simp, hws, .objNil hws', fun hnum => by cases hnum⟩
      | none =>
        rw [hclose] at h
        obtain ⟨⟨kvs, rest'⟩, hkvs, heq⟩ := Option.map_eq_some_iff.1 h
        obtain ⟨rfl, rfl⟩ := Prod.mk.inj heq
        obtain ⟨c, rfl, hc⟩ := hfields _ _ _ _ hkvs
        exact ⟨'\x7b' :: c, by rw [hcs, hobj]; simp, hws, .obj hc, fun hnum => by cases hnum⟩
    rw [if_neg hobj] at h
    split_ifs at h with hnumber
    · obtain ⟨⟨m, rest'⟩, hm, heq⟩ := Option.map_eq_some_iff.1 h
      obtain ⟨rfl, rfl⟩ := Prod.mk.inj heq
      obtain ⟨lexeme, hlexeme, hchars, hnum, hvalue, hends⟩ := readNumber_sound hm
      exact ⟨lexeme, by rw [hcs, hlexeme], hws, .num hchars hnum hvalue, fun _ => hends⟩
    · obtain ⟨c, hc, hgrammar, hnot⟩ := readLiteral_grammar d h
      exact ⟨c, by rw [hcs, hc], hws, hgrammar, fun hnum => by rw [hnot] at hnum; cases hnum⟩

theorem Grammar.elem_of_value {d : ℕ} {ws c ws' rest t : List Char} {v : Json N} (hws : Blank ws)
    (hws' : Blank ws') (h : Grammar ofLexeme d c (.value v)) (hrest : rest = ws' ++ t) :
    ∃ e, ws ++ (c ++ rest) = e ++ t ∧ Grammar ofLexeme d e (.elem v) :=
  ⟨ws ++ c ++ ws', by rw [hrest]; simp only [List.append_assoc], .elem hws hws' h⟩

theorem readElems_sound {n : ℕ} (hn : Sound ofLexeme n) {d : ℕ} {cs rest : List Char}
    {vs : List (Json N)}
    (h : readElems ofLexeme (n + 1) d cs = some (vs, rest)) : ∃ c, cs = c ++ rest ∧
    Grammar ofLexeme d c (.elems vs) := by
  obtain ⟨hvalue, helems, -⟩ := hn
  simp only [readElems, Option.bind_eq_bind, Option.bind_eq_some_iff] at h
  obtain ⟨⟨v, cs₁⟩, hv, h⟩ := h
  obtain ⟨ws, c, rfl, hws, hc, -⟩ := hvalue _ _ _ _ hv
  dsimp only at h
  cases hcomma : expect ',' cs₁ with
  | some cs₂ =>
    rw [hcomma] at h
    obtain ⟨⟨vs', rest'⟩, hvs, heq⟩ := Option.map_eq_some_iff.1 h
    obtain ⟨rfl, rfl⟩ := Prod.mk.inj heq
    obtain ⟨ws', hcs₁, hws'⟩ := expect_sound hcomma
    obtain ⟨e, he, helem⟩ := hc.elem_of_value hws hws' hcs₁
    obtain ⟨c', rfl, hc'⟩ := helems _ _ _ _ hvs
    exact ⟨e ++ ',' :: c', by rw [he]; simp, .elemsCons helem hc'⟩
  | none =>
    rw [hcomma] at h
    obtain ⟨rest', hclose, heq⟩ := Option.map_eq_some_iff.1 h
    obtain ⟨rfl, rfl⟩ := Prod.mk.inj heq
    obtain ⟨ws', hcs₁, hws'⟩ := expect_sound hclose
    obtain ⟨e, he, helem⟩ := hc.elem_of_value hws hws' hcs₁
    exact ⟨e ++ [']'], by rw [he]; simp, .elemsLast helem⟩

theorem readFields_sound {n : ℕ} (hn : Sound ofLexeme n) {d : ℕ} {cs rest : List Char}
    {kvs : Fields N}
    (h : readFields ofLexeme (n + 1) d cs = some (kvs, rest)) : ∃ c, cs = c ++ rest ∧
    Grammar ofLexeme d c (.fields kvs) := by
  obtain ⟨hvalue, -, hfields⟩ := hn
  simp only [readFields, Option.bind_eq_bind, Option.bind_eq_some_iff] at h
  obtain ⟨⟨key, cs₀⟩, hkey, ⟨v, cs₁⟩, hv, h⟩ := h
  obtain ⟨ws₀, b, ws₁, rfl, hws₀, hb, hws₁⟩ := readKey_sound hkey
  dsimp only at hv h
  obtain ⟨ws, c, rfl, hws, hc, -⟩ := hvalue _ _ _ _ hv
  have hfield {ws' t : List Char} (hws' : Blank ws') (hcs₁ : cs₁ = ws' ++ t) : ∃ e,
      ws₀ ++ '"' :: (b ++ '"' :: (ws₁ ++ ':' :: (ws ++ (c ++ cs₁)))) = e ++ t ∧
        Grammar ofLexeme d e (.field (key, v)) := by
    obtain ⟨e, he, helem⟩ := hc.elem_of_value hws hws' hcs₁
    exact ⟨_, by rw [he]; simp, .field hws₀ hb hws₁ helem⟩
  cases hcomma : expect ',' cs₁ with
  | some cs₂ =>
    rw [hcomma] at h
    obtain ⟨⟨kvs', rest'⟩, hkvs, heq⟩ := Option.map_eq_some_iff.1 h
    obtain ⟨rfl, rfl⟩ := Prod.mk.inj heq
    obtain ⟨ws', hcs₁, hws'⟩ := expect_sound hcomma
    obtain ⟨e, he, helem⟩ := hfield hws' hcs₁
    obtain ⟨c', rfl, hc'⟩ := hfields _ _ _ _ hkvs
    exact ⟨e ++ ',' :: c', by rw [he]; simp, .fieldsCons helem hc'⟩
  | none =>
    rw [hcomma] at h
    obtain ⟨rest', hclose, heq⟩ := Option.map_eq_some_iff.1 h
    obtain ⟨rfl, rfl⟩ := Prod.mk.inj heq
    obtain ⟨ws', hcs₁, hws'⟩ := expect_sound hclose
    obtain ⟨e, he, helem⟩ := hfield hws' hcs₁
    exact ⟨e ++ ['\x7d'], by rw [he]; simp, .fieldsLast helem⟩

theorem sound (n : ℕ) : Sound ofLexeme n := by
  induction n with
  | zero =>
    refine ⟨fun d cs v rest h => ?_, fun d cs vs rest h => ?_, fun d cs kvs rest h => ?_⟩
    · cases h
    · cases h
    · cases h
  | succ n ih =>
    exact ⟨fun _ _ _ _ h => readValue_sound ih h, fun _ _ _ _ h => readElems_sound ih h,
      fun _ _ _ _ h => readFields_sound ih h⟩

/-! ### Whole texts -/

/-- A text is read as a value exactly when it is one of the grammar with blanks around it. -/
theorem parse_eq_some_iff {cs : List Char} {v : Json N} : parse ofLexeme cs = some v ↔ ∃ ws c ws',
    cs = ws ++ (c ++ ws') ∧ Blank ws ∧ Blank ws' ∧ Grammar ofLexeme 128 c (.value v) := by
  constructor
  · intro h
    simp only [parse, Option.bind_eq_bind, Option.bind_eq_some_iff] at h
    obtain ⟨⟨v', rest⟩, hv, h⟩ := h
    dsimp only at h
    split_ifs at h with hrest
    obtain rfl := Option.some.inj h
    obtain ⟨ws, c, rfl, hws, hc, -⟩ := (sound _).1 _ _ _ _ hv
    obtain ⟨ws', hsplit, hws'⟩ := skipWs_split rest
    rw [List.isEmpty_iff.1 hrest, List.append_nil] at hsplit
    exact ⟨ws, c, rest, rfl, hws, hsplit ▸ hws', hc⟩
  · rintro ⟨ws, c, ws', rfl, hws, hws', hc⟩
    have hfuel : 2 * c.length ≤ 2 * (ws ++ (c ++ ws')).length + 2 := by
      rw [List.length_append, List.length_append]
      omega
    have hends : Ends ws' := by
      intro x hx
      by_contra hnum
      rw [Bool.not_eq_false] at hnum
      have hblank := hws' x (List.mem_of_mem_head? hx)
      rw [isWs_of_isNumberChar hnum] at hblank
      cases hblank
    have hskip : skipWs ws' = [] := by
      have := skipWs_append hws' []
      rwa [List.append_nil] at this
    simp only [parse, hc.reads _ ws ws' hws hfuel fun _ => hends, Option.bind_eq_bind,
      Option.bind_some, hskip, List.isEmpty_nil, if_pos]

/-- A value that is not a number is closed: what follows its text has to be blank. -/
theorem parse_append {p t : List Char} {v w : Json N} (hv : v.isNum = false)
    (hp : parse ofLexeme p = some v) (ht : parse ofLexeme (p ++ t) = some w) : v = w := by
  obtain ⟨ws, c, ws', rfl, hws, hws', hc⟩ := parse_eq_some_iff.1 hp
  simp only [parse, Option.bind_eq_bind, Option.bind_eq_some_iff] at ht
  obtain ⟨⟨w', rest⟩, hw, ht⟩ := ht
  have hfuel : 2 * c.length ≤ 2 * (ws ++ (c ++ ws') ++ t).length + 2 := by
    simp only [List.length_append]
    omega
  have hread :=
    hc.reads (2 * (ws ++ (c ++ ws') ++ t).length + 2) ws (ws' ++ t) hws hfuel fun hnum => by
    rw [hv] at hnum
    cases hnum
  have hassoc : ws ++ (c ++ ws') ++ t = ws ++ (c ++ (ws' ++ t)) := by
    simp only [List.append_assoc]
  rw [hassoc] at hw hread
  rw [hread] at hw
  obtain ⟨rfl, rfl⟩ := Prod.mk.inj (Option.some.inj hw)
  dsimp only at ht
  split_ifs at ht with hrest
  exact Option.some.inj ht

/-- How a text ends. -/
def EndsTight (c : List Char) : Item N → Prop
  | .value _ | .elems _ | .fields _ => ∃ c' x, c = c' ++ [x] ∧ isWs x = false
  | .elem _ | .field _ => True

theorem endsTight_append (c' : List Char) {c : List Char}
    (h : ∃ d y, c = d ++ [y] ∧ isWs y = false) : ∃ d y, c' ++ c = d ++ [y] ∧ isWs y = false := by
  obtain ⟨d, y, rfl, hy⟩ := h
  exact ⟨c' ++ d, y, by rw [List.append_assoc], hy⟩

theorem Grammar.endsTight {d : ℕ} {c : List Char} {item : Item N} (h : Grammar ofLexeme d c item) :
    EndsTight c item := by
  induction h with
  | null => exact ⟨"nul".toList, 'l', rfl, by decide⟩
  | true => exact ⟨"tru".toList, 'e', rfl, by decide⟩
  | false => exact ⟨"fals".toList, 'e', rfl, by decide⟩
  | @num d lexeme n hchars hnumber hvalue =>
    obtain ⟨x, cs, rfl, -⟩ := isNumber_head hnumber
    have hne := List.cons_ne_nil x cs
    exact ⟨_, _, (List.dropLast_concat_getLast hne).symm,
      isWs_of_isNumberChar (hchars _ (List.getLast_mem hne))⟩
  | @str d b s h => exact ⟨'"' :: b, '"', rfl, by decide⟩
  | @arrNil d ws hws => exact ⟨'[' :: ws, ']', rfl, by decide⟩
  | arr h ih => exact endsTight_append ['['] ih
  | @objNil d ws hws => exact ⟨'\x7b' :: ws, '\x7d', rfl, by decide⟩
  | obj h ih => exact endsTight_append ['\x7b'] ih
  | elem hws hws' h ih => trivial
  | @elemsLast d c v h ih => exact ⟨c, ']', rfl, by decide⟩
  | @elemsCons d c c' v vs h hs ih ihs => exact endsTight_append c (endsTight_append [','] ihs)
  | field hws hkey hws' h ih => trivial
  | @fieldsLast d c kv h ih => exact ⟨c, '\x7d', rfl, by decide⟩
  | @fieldsCons d c c' kv kvs h hs ih ihs => exact endsTight_append c (endsTight_append [','] ihs)

/-- A blank at the end is no part of a value. -/
theorem parse_of_append_blank {cs : List Char} {w : Char} {v : Json N} (hw : isWs w = true)
    (h : parse ofLexeme (cs ++ [w]) = some v) : parse ofLexeme cs = some v := by
  obtain ⟨ws, c, ws', hcs, hws, hws', hc⟩ := parse_eq_some_iff.1 h
  rcases List.eq_nil_or_concat ws' with rfl | ⟨ws'', x, rfl⟩
  · obtain ⟨c', y, rfl, hy⟩ := hc.endsTight
    rw [List.append_nil, ← List.append_assoc] at hcs
    obtain ⟨-, rfl⟩ := List.append_singleton_inj.1 hcs
    rw [hw] at hy
    cases hy
  · rw [List.concat_eq_append] at hws'
    rw [List.concat_eq_append, ← List.append_assoc, ← List.append_assoc] at hcs
    obtain ⟨rfl, -⟩ := List.append_singleton_inj.1 hcs
    have hblank : Blank ws'' := fun y hy => hws' y (List.mem_append_left _ hy)
    exact parse_eq_some_iff.2 ⟨ws, c, ws'', List.append_assoc .., hws, hblank, hc⟩

theorem parse_nil : parse ofLexeme [] = none := rfl

end Json
