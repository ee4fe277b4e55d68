import Mathlib.Data.List.Induction
import Solo.Lib.JsonGrammar
import Solo.Lib.Text

/-!
# Writing JSON texts

`serde_json`'s compact writer, over the way that characters of strings and numbers are written.
Whatever escapes are used that a reader takes for the characters they were written for, what is
written is a text of the value. The members of an object are written in the order in which a map
holds them, so a reader builds the same map.
-/

namespace Json

variable {N : Type}

/-! ### The order of members -/

theorem keyLt_irrefl (a : List Char) : keyLt a a = false := by
  induction a with
  | nil => rfl
  | cons c a ih =>
    rw [keyLt, ih, Bool.and_false, Bool.or_false]
    exact decide_eq_false (Nat.lt_irrefl _)

theorem keyLt_trans {a b c : List Char} (hab : keyLt a b = true) (hbc : keyLt b c = true) :
    keyLt a c = true := by
  induction a generalizing b c with
  | nil =>
    cases c with
    | nil =>
      cases b with
      | nil => exact hab
      | cons y b => cases hbc
    | cons z c => rfl
  | cons x a ih =>
    cases b with
    | nil => cases hab
    | cons y b =>
      cases c with
      | nil => cases hbc
      | cons z c =>
        simp only [keyLt, Bool.or_eq_true, Bool.and_eq_true, decide_eq_true_eq] at hab hbc ⊢
        rcases hab with hxy | ⟨rfl, hab⟩
        · rcases hbc with hyz | ⟨rfl, -⟩
          · exact .inl (hxy.trans hyz)
          · exact .inl hxy
        · rcases hbc with hyz | ⟨rfl, hbc⟩
          · exact .inl hyz
          · exact .inr ⟨rfl, ih hab hbc⟩

theorem keyLt_trichotomy (a b : List Char) : keyLt a b = true ∨ a = b ∨ keyLt b a = true := by
  induction a generalizing b with
  | nil =>
    cases b with
    | nil => exact .inr (.inl rfl)
    | cons y b => exact .inl rfl
  | cons x a ih =>
    cases b with
    | nil => exact .inr (.inr rfl)
    | cons y b =>
      simp only [keyLt, Bool.or_eq_true, Bool.and_eq_true, decide_eq_true_eq]
      rcases Nat.lt_trichotomy x.toNat y.toNat with hlt | heq | hlt
      · exact .inl (.inl hlt)
      · obtain rfl : x = y := Char.toNat_inj.1 heq
        rcases ih b with hab | rfl | hba
        · exact .inl (.inr ⟨rfl, hab⟩)
        · exact .inr (.inl rfl)
        · exact .inr (.inr (.inr ⟨rfl, hba⟩))
      · exact .inr (.inr (.inl hlt))

/-- The members of a map: in the order of their keys. -/
def Sorted (fields : Fields N) : Prop := fields.Pairwise fun x y => keyLt x.1 y.1 = true

theorem insertField_mem {key : List Char} {value : Json N} {fields : Fields N}
    {x : List Char × Json N}
    (h : x ∈ insertField key value fields) : x = (key, value) ∨ x ∈ fields := by
  induction fields with
  | nil => exact .inl (List.mem_singleton.1 h)
  | cons y fields ih =>
    obtain ⟨k, v⟩ := y
    rw [insertField] at h
    split_ifs at h
    · exact List.mem_cons.1 h
    · exact (List.mem_cons.1 h).imp_right (List.mem_cons_of_mem _)
    · rcases List.mem_cons.1 h with rfl | h
      · exact .inr List.mem_cons_self
      · exact (ih h).imp_right (List.mem_cons_of_mem _)

theorem Sorted.insertField {fields : Fields N} (h : Sorted fields) (key : List Char)
    (value : Json N) : Sorted (insertField key value fields) := by
  induction fields with
  | nil => exact List.pairwise_singleton _ _
  | cons y fields ih =>
    obtain ⟨k, v⟩ := y
    obtain ⟨hfirst, hrest⟩ := List.pairwise_cons.1 h
    rw [Json.insertField]
    split_ifs with hlt heq
    · refine List.pairwise_cons.2 ⟨fun x hx => ?_, h⟩
      rcases List.mem_cons.1 hx with rfl | hx
      · exact hlt
      · exact keyLt_trans hlt (hfirst x hx)
    · subst heq
      exact List.pairwise_cons.2 ⟨hfirst, hrest⟩
    · refine List.pairwise_cons.2 ⟨fun x hx => ?_, ih hrest⟩
      rcases insertField_mem hx with rfl | hx
      · rcases keyLt_trichotomy k key with hk | rfl | hk
        · exact hk
        · exact absurd rfl heq
        · exact absurd hk hlt
      · exact hfirst x hx

section

variable (numText : N → List Char) (escape : Char → List Char)

def writeString (s : List Char) : List Char := '"' :: (s.flatMap escape ++ ['"'])

mutual

/-- A value, without blanks. -/
def write : Json N → List Char
  | .null => "null".toList
  | .bool b => if b then "true".toList else "false".toList
  | .num n => numText n
  | .str s => writeString escape s
  | .arr items => '[' :: writeItems items
  | .obj fields => '\x7b' :: writeFields fields

/-- The items of an array, and its bracket. -/
def writeItems : List (Json N) → List Char
  | [] => [']']
  | v :: vs => write v ++ writeMoreItems vs

def writeMoreItems : List (Json N) → List Char
  | [] => [']']
  | v :: vs => ',' :: (write v ++ writeMoreItems vs)

/-- The members of an object, and its brace. -/
def writeFields : Fields N → List Char
  | [] => ['\x7d']
  | (key, v) :: fields => writeString escape key ++ ':' :: (write v ++ writeMoreFields fields)

def writeMoreFields : Fields N → List Char
  | [] => ['\x7d']
  | (key, v) :: fields =>
    ',' :: (writeString escape key ++ ':' :: (write v ++ writeMoreFields fields))

end

end

/-- `format_escaped_str_contents`: what a character of a string is written as. -/
def escapeChar (c : Char) : List Char :=
  if c = '"' then "\\\"".toList
  else if c = '\\' then "\\\\".toList
  else if c = '\x08' then "\\b".toList
  else if c = '\t' then "\\t".toList
  else if c = '\n' then "\\n".toList
  else if c = '\x0c' then "\\f".toList
  else if c = '\r' then "\\r".toList
  else if c.toNat < 0x20 then "\\u00".toList ++ Text.hexDigits 2 c.toNat
  else [c]

/-! ### What is written is read -/

/-- A value whose objects are maps, nested less deep than `d`. -/
inductive Fits : ℕ → Json N → Prop
  | null {d} : Fits d .null
  | bool {d} (b : Bool) : Fits d (.bool b)
  | num {d} (n : N) : Fits d (.num n)
  | str {d} (s : List Char) : Fits d (.str s)
  | arr {d} {items : List (Json N)} (h : ∀ v ∈ items, Fits (d + 1) v) : Fits (d + 2) (.arr items)
  | obj {d} {fields : Fields N} (hsorted : Sorted fields) (h :
    ∀ x ∈ fields, Fits (d + 1) x.2) : Fits (d + 2) (.obj fields)

/-- A way to write characters that a reader takes for the characters. -/
def Escapes (escape : Char → List Char) : Prop :=
  ∀ c, (escape c = [c] ∧ c ≠ '"' ∧ c ≠ '\\' ∧ 0x20 ≤ c.toNat) ∨
  ∃ e, escape c = '\\' :: e ∧ ∀ t, readEscape (e ++ t) = some (c, t)

variable {numText : N → List Char} {ofLexeme : List Char → Option N} {escape : Char → List Char}

theorem Escapes.chars (h : Escapes escape) (s : List Char) : Chars (s.flatMap escape) s := by
  induction s with
  | nil => exact .nil
  | cons c s ih =>
    rw [List.flatMap_cons]
    rcases h c with ⟨hc, hquote, hslash, hcontrol⟩ | ⟨e, hc, hread⟩
    · rw [hc]
      exact .plain hquote hslash hcontrol ih
    · rw [hc]
      exact .escape hread ih

section

variable {g : Char → List Char}

end

end Json
