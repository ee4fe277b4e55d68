import Solo.Store.Writer

/-!
# The audit log (`audit/log.rs`)

The events that the modelled commands emit.
-/

namespace Solo

/-- `AuditOperation`, as far as a modelled command emits it. -/
inductive AuditOperation
  | memoryRemember | memoryRememberBatch | memoryUpdate | memoryIngestDocument
  | memoryTriplesExtract
  | redactionApplied
  deriving DecidableEq, Repr

inductive AuditResult
  | ok | error | forbidden
  deriving DecidableEq, Repr

/-- A value of the details object. -/
inductive AuditValue
  | num (n : Nat)
  | bool (b : Bool)
  | str (s : String)
  | counts (fields : List (String × Nat))
  deriving DecidableEq, Repr

structure AuditEvent where
  tsMs : Int
  principalSubject : Option String
  operation : AuditOperation
  targetId : Option String
  result : AuditResult
  details : Option (List (String × AuditValue))
  deriving DecidableEq, Repr

/-- `Error`'s display texts. -/
def Error.display : Error → String
  | .storage m => s!"storage error: {m}"
  | .invalidInput m => s!"invalid input: {m}"
  | .notFound m => s!"not found: {m}"
  | .conflict m => s!"conflict: {m}"
  | .forbidden m => s!"forbidden: {m}"
  | .embedder m => s!"embedder error: {m}"
  | .embedderProtocol m => s!"embedder protocol violation: {m}"
  | .steward m => s!"steward error: {m}"
  | .vectorIndex e => s!"vector index error: {e.message}"
  | .other m => s!"other: {m}"

end Solo
