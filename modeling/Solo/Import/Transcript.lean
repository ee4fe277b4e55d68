import Mathlib.Data.List.Pairwise
import Mathlib.Data.List.Sort
import Solo.Import.Record
import Solo.Lib.JsonWrite

/-!
# Transcripts of conversations (`schema_import.rs`)

The messages of a conversation come from a map or from an array. Those of a map are sorted by their
times, but a time is kept as text, and texts are compared, also where the export gives numbers. So
messages stand in the order of their times exactly where the order of the texts is that of the
numbers.
-/

namespace Solo

open Text Json

namespace Import

/-- `created_at`, with what its text was made from. -/
inductive Timestamp (N : Type) where
  | text (s : List Char)
  | number (n : N)

structure TranscriptMessage (N : Type) where
  role : List Char
  text : List Char
  createdAt : Option (Timestamp N)
  order : ℕ

section

variable {N : Type}

def stringField (value : Json N) (names : List String) : Option (List Char) :=
  names.findSome? fun name => (value.get name).bind asStr

def messageText (value : Json N) : List Char :=
  match asStr value, (value.get "parts").bind asArray, (value.get "text").bind asStr,
    asArray value with
  | some s, _, _, _ => s
  | none, some parts, _, _ => ['\n'].intercalate (parts.filterMap asStr)
  | none, none, some text, _ => text
  | none, none, none, some items =>
    ['\n'].intercalate (items.filterMap fun item => (asStr item).or ((item.get "text").bind asStr))
  | none, none, none, none => []

def valueTimestamp : Option (Json N) → Option (Timestamp N)
  | some (.str s) => if (trimList s).isEmpty then none else some (.text s)
  | some (.num n) => some (.number n)
  | _ => none

def normalizeRole (role : List Char) : List Char :=
  if role = "human".toList then "user".toList
  else if role = "assistant".toList ∨ role = "system".toList ∨ role = "tool".toList then role
  else cleanTitle role

/-- The message of a node of the map, unless it has no text. -/
def nodeMessage (node : Json N) (order : ℕ) : Option (TranscriptMessage N) :=
  match node.get "message" with
  | none | some .null => none
  | some message =>
    let role :=
      ((message.get "author").bind fun author => (author.get "role").bind asStr).getD
      "unknown".toList
    let text := messageText ((message.get "content").getD .null)
    if (trimList text).isEmpty then none
    else some
      { role := normalizeRole role, text, createdAt := valueTimestamp (message.get "create_time"), order }

/-- The messages of `mapping`, in the order of the map. -/
def mappingMessages (mapping : Fields N) : List (TranscriptMessage N) :=
  mapping.zipIdx.filterMap fun x => nodeMessage x.1.2 x.2

/-- A message of an array, unless it has no text. -/
def itemMessage (roleNames : List String) (timeName : String) (message : Json N) (order : ℕ) :
    Option (TranscriptMessage N) :=
  let role := (stringField message roleNames).getD "unknown".toList
  let text :=
    (stringField message ["text", "content"]).getD
    (messageText ((message.get "content").getD message))
  if (trimList text).isEmpty then none
  else
    some
      { role := normalizeRole role
        text
        createdAt := ((stringField message ["created_at", "create_time"]).map .text).or
          (valueTimestamp (message.get timeName))
        order }

def itemMessages (roleNames : List String) (timeName : String) (messages : Option (Json N)) :
    List (TranscriptMessage N) :=
  (((messages.bind asArray).getD []).zipIdx).filterMap fun x =>
    itemMessage roleNames timeName x.1 x.2

def extractClaudeMessages (conversation : Json N) : List (TranscriptMessage N) :=
  itemMessages ["sender", "role", "author"] "created_at"
    ((conversation.get "chat_messages").or (conversation.get "messages"))

def extractGenericMessages (conversation : Json N) : List (TranscriptMessage N) :=
  itemMessages ["role", "sender", "author"] "create_time" (conversation.get "messages")

variable (numText : N → List Char)

def Timestamp.toText : Timestamp N → List Char
  | .text s => s
  | .number n => numText n

/-- The order of `Option<String>`. -/
def textLt : Option (List Char) → Option (List Char) → Bool
  | none, some _ => true
  | some a, some b => keyLt a b
  | _, none => false

def TranscriptMessage.timeText (m : TranscriptMessage N) : Option (List Char) :=
  m.createdAt.map (Timestamp.toText numText)

/-- The order of the messages: by the texts of their times, then by their places. -/
def comesFirst (a b : TranscriptMessage N) : Prop :=
  textLt (a.timeText numText) (b.timeText numText) = true ∨
    (a.timeText numText = b.timeText numText ∧ a.order ≤ b.order)

instance : DecidableRel (comesFirst numText) := fun _ _ => inferInstanceAs (Decidable (_ ∨ _))

def sortMessages (messages : List (TranscriptMessage N)) : List (TranscriptMessage N) :=
  messages.insertionSort (comesFirst numText)

def extractChatgptMessages (conversation : Json N) : List (TranscriptMessage N) :=
  match (conversation.get "mapping").bind asObject with
  | some mapping => sortMessages numText (mappingMessages mapping)
  | none => extractGenericMessages conversation

end

/-! ### The order of times -/

variable {N : Type} {numText : N → List Char}

theorem textLt_trans {a b c : Option (List Char)} (hab : textLt a b = true)
    (hbc : textLt b c = true) : textLt a c = true := by
  cases a with
  | none =>
    cases c with
    | none => cases b <;> cases hbc
    | some z => rfl
  | some x =>
    cases b with
    | none => cases hab
    | some y =>
      cases c with
      | none => cases hbc
      | some z => exact keyLt_trans hab hbc

theorem textLt_irrefl (a : Option (List Char)) : textLt a a = false := by
  cases a with
  | none => rfl
  | some x => exact keyLt_irrefl x

theorem textLt_trichotomy (a b : Option (List Char)) : textLt a b = true ∨ a = b ∨
    textLt b a = true := by
  cases a with
  | none =>
    cases b with
    | none => exact .inr (.inl rfl)
    | some y => exact .inl rfl
  | some x =>
    cases b with
    | none => exact .inr (.inr rfl)
    | some y =>
      rcases keyLt_trichotomy x y with h | rfl | h
      · exact .inl h
      · exact .inr (.inl rfl)
      · exact .inr (.inr h)

theorem comesFirst_total (a b : TranscriptMessage N) : comesFirst numText a b ∨
    comesFirst numText b a := by
  rcases textLt_trichotomy (a.timeText numText) (b.timeText numText) with h | h | h
  · exact .inl (.inl h)
  · rcases Nat.le_total a.order b.order with hle | hle
    · exact .inl (.inr ⟨h, hle⟩)
    · exact .inr (.inr ⟨h.symm, hle⟩)
  · exact .inr (.inl h)

theorem comesFirst_trans {a b c : TranscriptMessage N} (hab : comesFirst numText a b)
    (hbc : comesFirst numText b c) : comesFirst numText a c := by
  rcases hab with hab | ⟨hab, hle⟩
  · rcases hbc with hbc | ⟨hbc, -⟩
    · exact .inl (textLt_trans hab hbc)
    · exact .inl (hbc ▸ hab)
  · rcases hbc with hbc | ⟨hbc, hle'⟩
    · exact .inl (hab ▸ hbc)
    · exact .inr ⟨hab.trans hbc, hle.trans hle'⟩

theorem order_eq_of_comesFirst {a b : TranscriptMessage N} (hab : comesFirst numText a b)
    (hba : comesFirst numText b a) : a.order = b.order := by
  rcases hab with hab | ⟨hab, hle⟩
  · rcases hba with hba | ⟨hba, -⟩
    · have h := textLt_trans hab hba
      rw [textLt_irrefl] at h
      cases h
    · rw [hba, textLt_irrefl] at hab
      cases hab
  · rcases hba with hba | ⟨-, hle'⟩
    · rw [hab, textLt_irrefl] at hba
      cases hba
    · exact Nat.le_antisymm hle hle'

theorem sortMessages_perm (messages : List (TranscriptMessage N)) :
    (sortMessages numText messages).Perm messages :=
  List.perm_insertionSort _ _

theorem pairwise_sortMessages (messages : List (TranscriptMessage N)) :
    (sortMessages numText messages).Pairwise (comesFirst numText) := by
  have : Std.Total (comesFirst numText) := ⟨comesFirst_total⟩
  have : IsTrans (TranscriptMessage N) (comesFirst numText) := ⟨fun a b c => comesFirst_trans⟩
  exact List.pairwise_insertionSort _ _

/-- Messages of different places. -/
def Places (messages : List (TranscriptMessage N)) : Prop :=
  messages.Pairwise fun a b => a.order ≠ b.order

theorem places_filterMap {α : Type} (f : α × ℕ → Option (TranscriptMessage N))
    (hf : ∀ x m, f x = some m → m.order = x.2)
    (l : List α) (k : ℕ) : (∀ m ∈ (l.zipIdx k).filterMap f, k ≤ m.order) ∧
    Places ((l.zipIdx k).filterMap f) := by
  induction l generalizing k with
  | nil => exact ⟨fun m hm => absurd hm List.not_mem_nil, List.Pairwise.nil⟩
  | cons x l ih =>
    obtain ⟨hle, hplaces⟩ := ih (k + 1)
    rw [List.zipIdx_cons]
    cases hx : f (x, k) with
    | none =>
      rw [List.filterMap_cons_none hx]
      exact ⟨fun m hm => (Nat.le_succ k).trans (hle m hm), hplaces⟩
    | some m =>
      have horder : m.order = k := hf (x, k) m hx
      rw [List.filterMap_cons_some hx]
      constructor
      · intro m' hm'
        rcases List.mem_cons.1 hm' with rfl | hm'
        · exact horder.ge
        · exact (Nat.le_succ k).trans (hle m' hm')
      · exact List.pairwise_cons.2 ⟨fun m' hm' => by have := hle m' hm'; omega, hplaces⟩

theorem nodeMessage_order {node : Json N} {n : ℕ} {m : TranscriptMessage N}
    (h : nodeMessage node n = some m) : m.order = n := by
  unfold nodeMessage at h
  split at h
  · cases h
  · cases h
  · dsimp only at h
    split_ifs at h
    exact (Option.some.inj h) ▸ rfl

theorem places_mappingMessages (mapping : Fields N) : Places (mappingMessages mapping) :=
  (places_filterMap _ (fun _ _ h => nodeMessage_order h) mapping 0).2

/-! ### Transcripts -/

section

variable {R : Type} [LE R] (value : N → R)

/-- Of two messages with numbers for times, the second is not earlier. -/
def Ascend (a b : TranscriptMessage N) : Prop :=
  ∀ s t, a.createdAt = some (.number s) → b.createdAt = some (.number t) → value s ≤ value t

/-- The order of the texts is that of the numbers. -/
def TextsAgree (numText : N → List Char) (messages : List (TranscriptMessage N)) : Prop :=
  ∀ a ∈ messages, ∀ b ∈ messages, a.order ≠ b.order → comesFirst numText a b → Ascend value a b

variable {value}

theorem pairwise_ascend_iff {messages : List (TranscriptMessage N)} (hplaces : Places messages) :
    (sortMessages numText messages).Pairwise (Ascend value) ↔
    TextsAgree value numText messages := by
  have hperm : (sortMessages numText messages).Perm messages := sortMessages_perm messages
  have hsorted : (sortMessages numText messages).Pairwise (comesFirst numText) :=
    pairwise_sortMessages messages
  constructor
  · intro hascend a ha b hb hne hfirst
    have hsymm : Std.Symm fun x y : TranscriptMessage N =>
        (comesFirst numText x y ∧ Ascend value x y) ∨ (comesFirst numText y x ∧ Ascend value y x) :=
          ⟨fun x y => Or.symm⟩
    have hne' : a ≠ b := fun heq => hne (congrArg _ heq)
    have hpairs : (sortMessages numText messages).Pairwise fun x y =>
        (comesFirst numText x y ∧ Ascend value x y) ∨ (comesFirst numText y x ∧ Ascend value y x) :=
      (hsorted.and hascend).imp Or.inl
    have heither := hpairs.forall (hperm.mem_iff.2 ha) (hperm.mem_iff.2 hb) hne'
    rcases heither with ⟨-, h⟩ | ⟨hlast, -⟩
    · exact h
    · exact absurd (order_eq_of_comesFirst hfirst hlast) hne
  · intro hagree
    have hplaces' : Places (sortMessages numText messages) :=
      (hperm.pairwise_iff fun h => h.symm).2 hplaces
    refine (hsorted.and hplaces').imp_of_mem fun {a b} ha hb h => ?_
    exact hagree a (hperm.mem_iff.1 ha) b (hperm.mem_iff.1 hb) h.2 h.1

end

end Import

end Solo
