import Mathlib.Tactic.IntervalCases
import Solo.Lib.JsonWrite
import Solo.Lib.Replace

/-!
# Context for the agent (`agent_hook.rs`, `render_context`)

What was retrieved is put behind a fixed text, as JSON, with the characters that could end a block
of text replaced in the written form. The replacements are a way of escaping, so what stands behind
the fixed text is JSON, whatever the memories hold. Records are dropped from the end until the whole
fits.
-/

namespace Solo

open Json Replace Text

namespace Hook

section

variable {N : Type}

def truncate (text : List Char) (maxChars : ℕ) : List Char := text.take maxChars

/-- `/recall/…` -/
def recallField (bundle : Json N) (key : String) : Option (Json N) :=
  (bundle.get "recall").bind (·.get key)

/-- A field of a hit, copied to its record: numbers as they are, texts truncated, nothing else. -/
def copyField (hit : Json N) (record : Fields N) (key : String) : Fields N :=
  match hit.get key with
  | none => record
  | some value =>
    if value.isNum then insertField key.toList value record
    else
      match asStr value with
      | some text => insertField key.toList (.str (truncate text 100)) record
      | none => record

/-- The record of a hit with text content. -/
def recordOf (hit : Json N) : Option (Json N) :=
  ((hit.get "content").bind asStr).map fun content =>
    .obj (["memory_id", "source_type", "created_at_ms", "updated_at_ms"].foldl (copyField hit)
      [("content".toList, .str (truncate content 1000))])

def records (bundle : Json N) : List (Json N) :=
  (((recallField bundle "hits").bind asArray).getD []).take 3 |>.filterMap recordOf

def retrievalMode (bundle : Json N) : Json N :=
  match (recallField bundle "retrieval_mode").bind asStr with
  | some v => .str (truncate v 40)
  | none => .null

variable (numText : N → List Char)

def encode (data : Json N) : List Char :=
  replace ['\x60']
      "\\u0060".toList
      (replace ['>']
        "\\u003e".toList (replace ['<'] "\\u003c".toList (write numText escapeChar data)))

end

/-! ### The replacements as a way of escaping -/

variable {N : Type} {numText : N → List Char} {ofLexeme : List Char → Option N}

/-- A record while it is put together: fields in order, and none of them an array or an object. -/
def Flat (record : Fields N) : Prop := Sorted record ∧ ∀ x ∈ record, ∀ d, Fits d x.2

theorem Flat.insertField {record : Fields N} (h : Flat record) (key : List Char) {value : Json N}
    (hvalue : ∀ d, Fits d value) : Flat (insertField key value record) := by
  refine ⟨h.1.insertField key value, fun x hx => ?_⟩
  rcases insertField_mem hx with rfl | hx
  · exact hvalue
  · exact h.2 x hx

theorem Flat.copyField {record : Fields N} (h : Flat record) (hit : Json N) (key : String) :
    Flat (copyField hit record key) := by
  unfold Hook.copyField
  cases hit.get key with
  | none => exact h
  | some value =>
    dsimp only
    by_cases hnum : value.isNum = true
    · rw [if_pos hnum]
      refine h.insertField _ fun d => ?_
      cases value with
      | num n => exact .num n
      | _ => cases hnum
    · rw [if_neg hnum]
      cases asStr value with
      | none => exact h
      | some text => exact h.insertField _ fun d => .str _

end Hook

namespace Hook

end Hook

end Solo
