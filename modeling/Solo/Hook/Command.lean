import Mathlib.Tactic.IntervalCases
import Solo.Lib.Base64
import Solo.Lib.Json
import Solo.Lib.Quote
import Solo.Lib.Text

/-!
# The command of a managed hook (`hooks.rs`, `hook_command`, `command_text`, `owned_handler`)

A handler belongs to the setup when the text of its command holds five quoted words, the last one
the name of the client. The words of a command line are quoted, so no path, address or variable name
brings these words about: a command is owned for the client it was made for and for no other.
-/

namespace Solo.Hook

open Text Quote Json

inductive Client where
  | claudeDesktop
  | cursor
  | codex
  | copilot
  | claudeCode
  | gemini
  deriving DecidableEq

def Client.displayName : Client → String
  | .claudeDesktop => "Claude Desktop"
  | .cursor => "Cursor"
  | .codex => "Codex"
  | .copilot => "GitHub Copilot"
  | .claudeCode => "Claude Code"
  | .gemini => "Gemini CLI"

def Client.cliName : Client → String
  | .claudeDesktop => "claude-desktop"
  | .cursor => "cursor"
  | .codex => "codex"
  | .copilot => "copilot"
  | .claudeCode => "claude-code"
  | .gemini => "gemini"

inductive HookEvent where
  | sessionStart
  | prompt

inductive OperatingSystem where
  | windows
  | macos
  | linux
  deriving DecidableEq

def MARKER : String := "solo-setup-v1"

/-- `trim_start_matches`; the number bounds the turns. -/
def trimStartMatches (pattern : String) : ℕ → List Char → List Char
  | 0, cs => cs
  | n + 1, cs =>
    match stripPrefix? cs pattern with
    | some rest => trimStartMatches pattern n rest
    | none => cs

def HookEvent.cliName : HookEvent → String
  | .sessionStart => "session-start"
  | .prompt => "prompt"

/-- The words of the command; `exe` is `to_string_lossy` of the path. -/
def commandParts (exe : List Char) (client : Client) (event : HookEvent)
    (url tokenEnv : List Char) : List (List Char) :=
  [trimStartMatches "\\\\?\\" exe.length exe, "agent-hook".toList, "--managed-by".toList,
    MARKER.toList, "--client".toList,
    client.cliName.toList, "--event".toList, event.cliName.toList, "--url".toList, url,
      "--token-env".toList, tokenEnv]

def powershellPrefix : String := "powershell.exe -NoProfile -NonInteractive -EncodedCommand "

def hookCommand (exe : List Char) (client : Client) (event : HookEvent) (url tokenEnv : List Char)
    (os : OperatingSystem) : List Char :=
  let parts := commandParts exe client event url tokenEnv
  if os = .windows then
    let script := '&' :: ' ' :: line .powershell parts
    powershellPrefix.toList ++ Base64.encode (Utf16.toLeBytes (Utf16.encode script))
  else line .posix parts

def commandText (command : List Char) : Option (List Char) :=
  match stripPrefix? command powershellPrefix with
  | some encoded => do
    let bytes ← Base64.decode encoded
    let words ← Utf16.fromLeBytes bytes
    Utf16.decode words
  | none => some command

/-- What `owned_handler` looks for. -/
def ownedText (client : Client) : List Char :=
  "'agent-hook' '--managed-by' '".toList ++ MARKER.toList ++ "' '--client' '".toList ++
    client.cliName.toList ++ ['\'']

def ownedHandler {N : Type} (handler : Json N) (client : Client) : Bool :=
  (((handler.get "command").bind asStr).bind commandText).any fun text =>
    contains text (String.ofList (ownedText client))

/-- A handler with a command that the setup makes. -/
def Produced {N : Type} (client : Client) (handler : Json N) : Prop :=
  ∃ exe event url tokenEnv os, handler.get "command" =
    some (.str (hookCommand exe client event url tokenEnv os))

/-! ### Texts -/

theorem contains_iff {cs : List Char} {needle : String} : contains cs needle = true ↔
    needle.toList <:+: cs := by
  induction cs with
  | nil => rw [contains, List.isEmpty_iff, List.infix_nil]
  | cons c cs ih =>
    rw [contains, Bool.or_eq_true, ih, startsWith, List.isPrefixOf_iff_prefix, List.infix_cons_iff]

theorem stripPrefix?_append (pre : String) (cs : List Char) :
    stripPrefix? (pre.toList ++ cs) pre = some cs := by
  have hstarts : startsWith (pre.toList ++ cs) pre = true :=
    List.isPrefixOf_iff_prefix.2 (List.prefix_append _ _)
  rw [stripPrefix?, if_pos hstarts, List.drop_left]

/-- The text of the command that is looked through. -/
def partsText (parts : List (List Char)) (os : OperatingSystem) : List Char :=
  if os = .windows then '&' :: ' ' :: line .powershell parts else line .posix parts

theorem commandText_hookCommand (exe : List Char) (client : Client) (event : HookEvent)
    (url tokenEnv : List Char)
    (os : OperatingSystem) : commandText (hookCommand exe client event url tokenEnv os)
      = some (partsText (commandParts exe client event url tokenEnv) os) := by
  unfold hookCommand partsText
  dsimp only
  by_cases hos : os = .windows
  · rw [if_pos hos, if_pos hos]
    unfold commandText
    rw [stripPrefix?_append]
    dsimp only
    rw [Base64.decode_encode (Utf16.toLeBytes_lt Utf16.encode_lt), Option.bind_eq_bind,
      Option.bind_some, Utf16.fromLeBytes_toLeBytes, Option.bind_some, Utf16.decode_encode]
  · rw [if_neg hos, if_neg hos]
    have hquote : stripPrefix? (line .posix (commandParts exe client event url tokenEnv))
        powershellPrefix = none := rfl
    unfold commandText
    rw [hquote]

theorem head_hookCommand (exe : List Char) (client : Client) (event : HookEvent)
    (url tokenEnv : List Char) (os : OperatingSystem) :
    (hookCommand exe client event url tokenEnv os).head? = some 'p' ∨
      (hookCommand exe client event url tokenEnv os).head? = some '\'' := by
  unfold hookCommand
  split_ifs
  · exact .inl rfl
  · exact .inr rfl

/-! ### Whose command it is -/

/-- The words of `ownedText`. -/
def ownedWords (client : Client) : List (List Char) :=
  ["agent-hook".toList, "--managed-by".toList, MARKER.toList, "--client".toList,
    client.cliName.toList]

theorem ownedText_eq (client : Client) : ownedText client = line .posix (ownedWords client) := by
  cases client <;> decide +kernel

theorem ownedWords_plain (client : Client) : ∀ word ∈ ownedWords client, '\'' ∉ word := by
  cases client <;> decide +kernel

theorem infix_line (shell : Shell) (exe : List Char) (client : Client) (event : HookEvent)
    (url tokenEnv : List Char) :
    ownedText client <:+: line shell (commandParts exe client event url tokenEnv) := by
  have hparts : commandParts exe client event url tokenEnv =
      trimStartMatches "\\\\?\\" exe.length exe :: (ownedWords client ++
      ["--event".toList, event.cliName.toList, "--url".toList, url, "--token-env".toList,
        tokenEnv]) := rfl
  have hwords : ownedWords client ≠ [] := List.cons_ne_nil _ _
  have hall : ownedWords client ++
      ["--event".toList, event.cliName.toList, "--url".toList, url, "--token-env".toList,
        tokenEnv] ≠ [] :=
    List.append_ne_nil_of_left_ne_nil hwords _
  rw [hparts, line_cons shell _ hall, line_append shell hwords (List.cons_ne_nil _ _), ownedText_eq,
    line_plain (ownedWords_plain client) .posix shell]
  exact (List.prefix_append _ _).isInfix.trans
    ((List.suffix_cons _ _).trans (List.suffix_append _ _)).isInfix

/-- No name of a client begins with the name of another. -/
theorem cliName_append {client other : Client} {x : List Char}
    (h : other.cliName.toList = client.cliName.toList ++ x) : other = client := by
  have hbegins : client.cliName.toList <+: other.cliName.toList := ⟨x, h.symm⟩
  have hall : ∀ client other : Client, client.cliName.toList.isPrefixOf other.cliName.toList =
      true → other = client := by
    intro client other
    cases client <;> cases other <;> decide
  exact hall client other (List.isPrefixOf_iff_prefix.2 hbegins)

/-- The words stand in a command line only where it has them itself. -/
theorem eq_of_infix_line {shell : Shell} {exe url tokenEnv : List Char} {client other : Client}
    {event : HookEvent}
    (h : ownedText client <:+: line shell (commandParts exe other event url tokenEnv)) :
    other = client := by
  rw [ownedText_eq] at h
  have hfirst : '\'' ∉ 'a' :: "gent-hook".toList := by decide
  have hwords : ownedWords client = ('a' :: "gent-hook".toList) ::
      ["--managed-by".toList, MARKER.toList, "--client".toList] ++ [client.cliName.toList] := rfl
  rw [hwords] at h
  have hne : commandParts exe other event url tokenEnv ≠ [] := List.cons_ne_nil _ _
  obtain ⟨before, pre, x, more, hparts⟩ := words_of_infix hne hfirst (by decide) (by decide) h
  have hget (i : ℕ) : (commandParts exe other event url tokenEnv)[before.length + i]? =
      ((pre ++ 'a' :: "gent-hook".toList) ::
      ["--managed-by".toList, MARKER.toList, "--client".toList] ++
        (client.cliName.toList ++ x) :: more)[i]? := by
    rw [hparts, List.append_assoc, List.getElem?_append_right (Nat.le_add_right _ _),
      Nat.add_sub_cancel_left]
  have hmanaged : (commandParts exe other event url tokenEnv)[before.length + 1]? =
      some "--managed-by".toList := hget 1
  have hmarker : (commandParts exe other event url tokenEnv)[before.length + 2]? =
      some MARKER.toList := hget 2
  have hname : (commandParts exe other event url tokenEnv)[before.length + 4]? =
      some (client.cliName.toList ++ x) := hget 4
  obtain ⟨hlt, -⟩ := List.getElem?_eq_some_iff.1 hmarker
  have hlt : before.length < 10 := by
    have hlength : (commandParts exe other event url tokenEnv).length = 12 := rfl
    omega
  generalize before.length = n at *
  interval_cases n
  · exact absurd (Option.some.inj hmanaged) (by decide)
  · exact cliName_append (Option.some.inj hname)
  · exact absurd (Option.some.inj hmanaged) (by decide)
  · exact absurd (Option.some.inj hmanaged) (by decide)
  · exact absurd (Option.some.inj hmarker) (by decide)
  · exact absurd (Option.some.inj hmanaged) (by decide)
  · exact absurd (Option.some.inj hmarker) (by decide)
  · exact absurd (Option.some.inj hmanaged) (by decide)
  · exact absurd (Option.some.inj hmarker) (by decide)
  · exact absurd (Option.some.inj hmanaged) (by decide)

/-- A command of the setup is owned for the client it was made for, and for no other. -/
theorem contains_ownedText_iff (exe : List Char) (client other : Client) (event : HookEvent)
    (url tokenEnv : List Char) (os : OperatingSystem) :
    ownedText client <:+: partsText (commandParts exe other event url tokenEnv) os ↔
    other = client := by
  unfold partsText
  constructor
  · intro h
    split_ifs at h with hos
    · have hquote : ∃ rest, ownedText client = '\'' :: rest := ⟨_, rfl⟩
      obtain ⟨rest, hquote⟩ := hquote
      have hdrop (c : Char) (cs : List Char) (hc : c ≠ '\'') (hin : ownedText client <:+: c :: cs) :
          ownedText client <:+: cs := by
        rcases List.infix_cons_iff.1 hin with hbegins | hin
        · rw [hquote] at hbegins
          exact absurd (List.cons_prefix_cons.1 hbegins).1.symm hc
        · exact hin
      exact eq_of_infix_line (hdrop _ _ (by decide) (hdrop _ _ (by decide) h))
    · exact eq_of_infix_line h
  · rintro rfl
    split_ifs with hos
    · exact ((infix_line _ _ _ _ _ _).trans
        ((List.suffix_cons _ _).trans (List.suffix_cons _ _)).isInfix)
    · exact infix_line _ _ _ _ _ _

theorem ownedHandler_of_produced {N : Type} {client other : Client} {handler : Json N}
    (h : Produced other handler) : ownedHandler handler client = true ↔ other = client := by
  obtain ⟨exe, event, url, tokenEnv, os, hcommand⟩ := h
  unfold ownedHandler
  rw [hcommand, Option.bind_some, asStr, Option.bind_some, commandText_hookCommand, Option.any_some,
    contains_iff, String.toList_ofList, contains_ownedText_iff]

end Solo.Hook
