import Mathlib.Data.List.Infix
import Solo.Lib.Crash
import Solo.Lib.FileTree
import Solo.Lib.Result
import Solo.Lib.Table
import Solo.Store.Writer
import Solo.Upload.Protocol

/-!
# The promotion of the previous layout (`migrate_legacy_default_library`)

An earlier edition kept the default library under `tenants/`. It is promoted into the data directory
by single renames, and the obsolete registry `tenants_index.db` is retired: its audit rows go into
the library and its files are removed, or the files are quarantined if it cannot be read. Paths are
relative to the data directory. What a file is stays the same under renames; what SQLite writes into
a database, or next to it while it is open, is not part of the tree.
-/

namespace Solo

open Crash Result

def COMMUNITY_DB_FILENAME : String := "solo.db"
def LEGACY_INDEX_FILENAME : String := "tenants_index.db"
def LEGACY_LIBRARY_SUBDIR : String := "tenants"
def LEGACY_DEFAULT_DB_FILENAME : String := "default.db"

structure AdminAuditRow where
  auditId : Int
  tsMs : Int
  principalSubject : Option String
  operation : String
  targetTenantId : Option String
  result : String
  detailsJson : Option String
  deriving DecidableEq

instance : Keyed AdminAuditRow where
  clash a b := a.auditId = b.auditId
  clash_comm a b := by simp [eq_comm]

/-- The files, and `audit_events_admin` of the library, wherever its file is. -/
structure DataDir (β : Type) where
  tree : FileTree β
  audit : Table AdminAuditRow

/-- What the program asks of its surroundings: texts, the order in which a directory is read, and
whether a database opens under the key. -/
structure PromoteEnv (β : Type) where
  display : FilePath → String
  osError : String
  readDir : FileTree β → FilePath → List String
  openLibrary : β → Except Error Unit
  readLegacyAdminAuditRows : β → Except Error (List AdminAuditRow)

namespace Promote

abbrev Promotion (β α : Type) := Prog (DataDir β) Error α

def rootDb (suffix : String) : FilePath := [COMMUNITY_DB_FILENAME ++ suffix]

def legacyDir : FilePath := [LEGACY_LIBRARY_SUBDIR]

def legacyDefaultDb (suffix : String) : FilePath :=
  [LEGACY_LIBRARY_SUBDIR, LEGACY_DEFAULT_DB_FILENAME ++ suffix]

def nestedDefault : FilePath := [LEGACY_LIBRARY_SUBDIR, "default"]

def legacyIndex (suffix : String) : FilePath := [LEGACY_INDEX_FILENAME ++ suffix]

def quarantineDir : FilePath := ["migration-retired"]

/-- Of the files that SQLite keeps for a database. -/
def suffixes : List String := ["", "-wal", "-shm"]

def isLibraryName (name : String) : Bool :=
  suffixes.any fun suffix => name = LEGACY_DEFAULT_DB_FILENAME ++ suffix

def isIndexName (name : String) : Bool :=
  suffixes.any fun suffix => name = LEGACY_INDEX_FILENAME ++ suffix

section Program

variable {β : Type} (env : PromoteEnv β)

/-- One file operation or statement; a crash comes before it or after it. -/
def atomic (act : DataDir β → Option (DataDir β)) (e : Error) : Promotion β Unit :=
  .op act (fun n s => if n = 0 then s else (act s).getD s) e

def onTree (act : FileTree β → Option (FileTree β)) (e : Error) : Promotion β Unit :=
  atomic (fun s => (act s.tree).map fun t => { s with tree := t }) e

/-- `let _ = std::fs::remove_dir(dir)` -/
def tryRemoveDir (dir : FilePath) : Promotion β Unit := do
  let _ ← (onTree (·.removeDir? dir) (.storage env.osError)).attempt
  return

def moveFile (source destination : FilePath) : Promotion β Unit :=
  onTree (·.rename? source destination)
    (.storage s!"move {env.display source} to {env.display destination}: {env.osError}")

def ambiguous (source destination : FilePath) : Error :=
  .conflict
    s!"both {env.display source} and {env.display destination} exist; refusing an ambiguous Community migration"

def missingLibrary (path : FilePath) : Error :=
  let library := legacyDefaultDb ""
  .conflict
  s!"previous Solo layout remnant {env.display path} exists but the default library is missing at {env.display library}"

def additionalDatabases (extra : List FilePath) : Error :=
  let paths := ", ".intercalate (extra.map env.display)
  .conflict
  s!"Community migration found additional database files ({paths}). Export them before installing the single-library Community edition."

/-- What is left of the previous layout where there is no library. -/
def remnant (t : FileTree β) : Option FilePath :=
  ((suffixes.map legacyIndex).find? t.has).or
    (if t.isDir legacyDir then (env.readDir t legacyDir).head?.map fun name => legacyDir ++
      [name] else none)

/-- Database files beside the default one. -/
def extraDatabases (t : FileTree β) : List FilePath :=
  if t.isDir legacyDir then
    ((env.readDir t legacyDir).filter fun name => t.isFile (legacyDir ++ [name]) &&
      pathExtension name.toList = some "db".toList && name ≠ LEGACY_DEFAULT_DB_FILENAME).map
      fun name => legacyDir ++ [name]
  else []

/-- Open a database and migrate it, if it is there. -/
def openAt (t : FileTree β) (p : FilePath) : Except Error Unit :=
  (t.content? p).elim (.error (.storage env.osError)) env.openLibrary

/-- The `-wal` or `-shm` file of the library; whether there was one. -/
def promoteSidecar (suffix : String) : Promotion β Bool := do
  let t ← Prog.get (·.tree)
  if t.isFile (legacyDefaultDb suffix) then
    Prog.ofExcept
      (rejectIf (t.has (rootDb suffix)) (ambiguous env (legacyDefaultDb suffix) (rootDb suffix)))
    moveFile env (legacyDefaultDb suffix) (rootDb suffix)
    return true
  else return false

/-- The loop of `promote_directory_contents`. -/
def promoteEntries (source : FilePath) : List String → Promotion β Unit
  | [] => pure ()
  | name :: names =>
    if isLibraryName name then promoteEntries source names
    else do
      let t ← Prog.get (·.tree)
      Prog.ofExcept (rejectIf (t.has [name])
        (.conflict
          s!"cannot promote {env.display (source ++ [name])} because {env.display [name]} already exists"))
      onTree (·.rename? (source ++ [name]) [name])
        (.storage
          s!"promote {env.display (source ++ [name])} to {env.display [name]}: {env.osError}")
      promoteEntries source names

def promoteDirectoryContents (source : FilePath) : Promotion β Unit := do
  let t ← Prog.get (·.tree)
  if t.isDir source then promoteEntries env source (env.readDir t source) else pure ()

def insertRows : List AdminAuditRow → Promotion β Unit
  | [] => pure ()
  | row :: rows => do
    atomic (fun s => some { s with audit := s.audit.insertOrIgnore row })
      (.storage s!"preserve previous admin audit row {row.auditId}: {env.osError}")
    insertRows rows

def preserveLegacyAdminAuditRows (rows : List AdminAuditRow) : Promotion β Unit := do
  let t ← Prog.get (·.tree)
  Prog.ofExcept (openAt env t (rootDb ""))
  insertRows env rows

def removeIndexFile (suffix : String) : Promotion β Unit := do
  let t ← Prog.get (·.tree)
  if t.isFile (legacyIndex suffix) then
    onTree (·.removeFile? (legacyIndex suffix))
      (.storage s!"remove obsolete registry {env.display (legacyIndex suffix)}: {env.osError}")
  else pure ()

/-- `quarantine_legacy_index_file` -/
def quarantineIndexFile (suffix : String) : Promotion β Unit := do
  let t ← Prog.get (·.tree)
  if t.isFile (legacyIndex suffix) then
    onTree (fun t => if t.isFile quarantineDir then none else some (t.createDir quarantineDir))
      (.storage
        s!"create migration quarantine directory {env.display quarantineDir}: {env.osError}")
    let destination := quarantineDir ++ legacyIndex suffix
    let t ← Prog.get (·.tree)
    Prog.ofExcept (rejectIf (t.has destination) (.conflict
      s!"cannot quarantine obsolete registry {env.display (legacyIndex suffix)} because {env.display destination} already exists"))
    onTree (·.rename? (legacyIndex suffix) destination)
      (.storage
        s!"quarantine obsolete registry {env.display (legacyIndex suffix)} to {env.display destination}: {env.osError}")
  else pure ()

/-- The rows of a readable registry; `none` for one that is quarantined. -/
def indexRows (t : FileTree β) : Option (List AdminAuditRow) :=
  (t.content? (legacyIndex "")).elim (some []) fun c => (env.readLegacyAdminAuditRows c).toOption

def retireWith : Option (List AdminAuditRow) → Promotion β Unit
  | some rows => do
    if rows = [] then pure () else preserveLegacyAdminAuditRows env rows
    removeIndexFile env ""
    removeIndexFile env "-wal"
    removeIndexFile env "-shm"
  | none => do
    quarantineIndexFile env ""
    quarantineIndexFile env "-wal"
    quarantineIndexFile env "-shm"

def retireLegacyIndex : Promotion β Unit := do
  let t ← Prog.get (·.tree)
  retireWith env (indexRows env t)

/-- The part of the promotion that moves the library and what is beside it. -/
def promoteLibrary (legacyDefaultExists : Bool) : Promotion β Bool := do
  if legacyDefaultExists then moveFile env (legacyDefaultDb "") (rootDb "") else pure ()
  let wal ← promoteSidecar env "-wal"
  let shm ← promoteSidecar env "-shm"
  let t ← Prog.get (·.tree)
  promoteDirectoryContents env nestedDefault
  tryRemoveDir env nestedDefault
  promoteDirectoryContents env legacyDir
  return wal || shm || t.isDir nestedDefault || t.isDir legacyDir

def migrateLegacyDefaultLibrary : Promotion β Bool := do
  let t ← Prog.get (·.tree)
  let rootExists := t.isFile (rootDb "")
  let legacyDefaultExists := t.isFile (legacyDefaultDb "")
  Prog.ofExcept
    (rejectIf (rootExists && legacyDefaultExists) (ambiguous env (rootDb "") (legacyDefaultDb "")))
  if !rootExists && !legacyDefaultExists then
    Prog.ofExcept ((remnant env t).elim (.ok ()) fun path => .error (missingLibrary env path))
    tryRemoveDir env legacyDir
    return false
  else
    let extra := extraDatabases env t
    Prog.ofExcept (rejectIf (extra ≠ []) (additionalDatabases env extra))
    Prog.ofExcept (if legacyDefaultExists then openAt env t (legacyDefaultDb "") else .ok ())
    let promoted ← promoteLibrary env legacyDefaultExists
    let t ← Prog.get (·.tree)
    retireLegacyIndex env
    tryRemoveDir env legacyDir
    return legacyDefaultExists || promoted || suffixes.any fun suffix => t.has (legacyIndex suffix)

end Program

end Promote

end Solo
