import NilsCli.Lib.Text
import NilsCli.Coordination.Types

/-!
# Session lineage (`lineage.rs`)

Who started a session, written once when it starts (`LineageSeed`, `finalize`), and who took it over
later (`adopt`).
-/

namespace NilsCli.Lineage

open Lib Coordination

variable (machine : String)

def lineageSchema : String := "agent-session.session-lineage.v1"

def maxDepth : Nat := 64

def maxMachineBytes : Nat := 64

def maxIncarnationBytes : Nat := 128

def maxTimestampBytes : Nat := 64

/-! ## Records -/

structure SessionRef where
  machine : String
  sessionId : String
  sessionCreatedAt : String
  sessionIncarnation : Option String
  deriving DecidableEq

def SessionRef.key (ref : SessionRef) : String × String := (ref.sessionId, ref.sessionCreatedAt)

def SessionRef.withoutIncarnation (ref : SessionRef) : SessionRef :=
  { ref with sessionIncarnation := none }

structure Starter where
  kind : String
  via : String
  deriving DecidableEq

structure SessionLineage where
  schemaVersion : String
  machine : String
  parent : Option SessionRef
  root : SessionRef
  depth : Nat
  starter : Starter
  deriving DecidableEq

structure LineageAdoption where
  adoptedBy : Option SessionRef
  revision : Nat
  updatedAt : String
  deriving DecidableEq

/-- What lineage reads of a `SessionRecord`. -/
structure SessionRecord where
  id : String
  createdAt : String
  updatedAt : String
  /-- `runtime.launch_id`. -/
  launchId : Option String
  lineage : Option SessionLineage
  lineageAdoption : Option LineageAdoption
  deriving DecidableEq

variable (record : SessionRecord)

def SessionRecord.key : String × String := (record.id, record.createdAt)

/-- `launch_id`. -/
def launchIdOf : Option String :=
  (record.launchId.map trim).filter (· ≠ "")

def SessionRef.of : SessionRef where
  machine := machine
  sessionId := record.id
  sessionCreatedAt := record.createdAt
  sessionIncarnation := launchIdOf record

def effectiveParent : Option SessionRef :=
  match record.lineageAdoption with
  | some ⟨some steward, _, _⟩ => some steward
  | _ => record.lineage.bind (·.parent)

/-! ## Starts -/

structure ParentLink where
  parent : SessionRef
  root : SessionRef
  depth : Nat

structure LineageSeed where
  machine : String
  parent : Option ParentLink
  starter : Starter

def LineageSeed.root (kind via : String) : LineageSeed := ⟨machine, none, ⟨kind, via⟩⟩

def depthExceeded : CliError :=
  .usageErr "lineage-depth-exceeded" "a session lineage is at most 64 deep"

def LineageSeed.childOf (parentMachine : String) (parent : SessionRecord)
    (kind via : String) : Except CliError LineageSeed :=
  let parentRef := SessionRef.of parentMachine parent
  let (root, depth) := match parent.lineage with
    | some lineage => (lineage.root.withoutIncarnation, lineage.depth + 1)
    | none => (parentRef.withoutIncarnation, 1)
  if maxDepth < depth then .error depthExceeded
  else .ok ⟨machine, some ⟨parentRef, root, depth⟩, ⟨kind, via⟩⟩

def LineageSeed.finalize (seed : LineageSeed) (id createdAt : String) : SessionLineage :=
  let (parent, root, depth) := match seed.parent with
    | some link => (some link.parent, link.root, link.depth)
    | none => (none, ⟨seed.machine, id, createdAt, none⟩, 0)
  { schemaVersion := lineageSchema, machine := seed.machine, parent, root, depth
    starter := seed.starter }

/-! ## The state directory -/

/-- The records of a state directory. -/
abbrev Directory := List SessionRecord

def validateId (id : String) : Except CliError Unit :=
  if id.toList ≠ [] ∧ id.toList.all fun ch =>
      isAsciiLower ch || isAsciiUpper ch || isAsciiDigit ch || ch = '-' || ch = '_' then .ok ()
  else .error (.usageErr "invalid-session-id"
    "session id may contain only ASCII letters, digits, '-' and '_'")

def sessionNotFound (id : String) : CliError :=
  .runtimeErr "session-not-found" ("session not found: " ++ id)

def ambiguousSessionId (id : String) : CliError :=
  .usageErr "ambiguous-session-id" ("session id prefix is ambiguous: " ++ id)

def loadSessionRecord (directory : Directory) (id : String) : Except CliError SessionRecord := do
  validateId id
  match directory.find? (·.id = id) with
  | some record => .ok record
  | none =>
    match directory.filter fun record => id.toList.isPrefixOf record.id.toList with
    | [record] => .ok record
    | [] => .error (sessionNotFound id)
    | _ => .error (ambiguousSessionId id)

/-- `reaches`, after that many references. -/
def reachesWithin (directory : Directory) (id createdAt : String) : Nat → Option SessionRef → Bool
  | 0, _ => false
  | _ + 1, none => false
  | n + 1, some ref =>
    if ref.sessionId = id ∧ ref.sessionCreatedAt = createdAt then true
    else match loadSessionRecord directory ref.sessionId with
      | .error _ => false
      | .ok record =>
        if record.createdAt ≠ ref.sessionCreatedAt then false
        else reachesWithin directory id createdAt n (effectiveParent record)

def reaches (directory : Directory) (start : SessionRef) (id createdAt : String) : Bool :=
  reachesWithin directory id createdAt (maxDepth + 1) (some start)

/-- The session a command runs in, or an operator. -/
inductive Caller
  | session (id createdAt : String)
  | operator

structure LineageAdoptArgs where
  child : String
  by_ : Option String
  byMachine : Option String
  byCreatedAt : Option String
  ifRevision : Option Nat

def invalidRef : CliError :=
  .usageErr "lineage-invalid" "a lineage session reference is invalid"

def adoptionLoop : CliError :=
  .usageErr "lineage-invalid" "a session cannot adopt itself or one of its own stewards or ancestors"

def adoptForbidden : CliError :=
  .dataErr "lineage-adopt-forbidden"
    "a managed session may only adopt children for itself; run as an operator to name another steward or clear one"

def revisionConflict : CliError :=
  .dataErr "lineage-revision-conflict" "the revision changed; read it again and retry"

def isAsciiGraphic (ch : Char) : Bool := 0x21 ≤ ch.toNat ∧ ch.toNat ≤ 0x7e

section
-- whether a text is a timestamp, and the label of this machine
variable (isTimestamp : String → Bool) (machineIdentity : String)

variable (directory : Directory)

def checkedRef (ref : SessionRef) : Except CliError SessionRef :=
  let machineOk := ref.machine ≠ "" ∧ ref.machine.utf8ByteSize ≤ maxMachineBytes ∧
    ref.machine.toList.all isAsciiGraphic
  let timeOk := ref.sessionCreatedAt.utf8ByteSize ≤ maxTimestampBytes ∧
    isTimestamp ref.sessionCreatedAt
  let incarnationOk := ref.sessionIncarnation.all fun value =>
    value ≠ "" && decide (value.utf8ByteSize ≤ maxIncarnationBytes) && value.toList.all isAsciiGraphic
  if ¬ machineOk ∨ ¬ timeOk ∨ ¬ incarnationOk ∨ (validateId ref.sessionId).toOption.isNone then
    .error invalidRef
  else .ok ref

def ownMachine (record : SessionRecord) : String :=
  ((record.lineage.map (·.machine)).filter (· ≠ "")).getD machineIdentity

def stewardRef (steward : String) (args : LineageAdoptArgs) : Except CliError SessionRef := do
  validateId steward
  match args.byMachine, args.byCreatedAt with
  | some byMachine, some createdAt =>
    checkedRef isTimestamp ⟨byMachine, steward, createdAt, none⟩
  | _, _ =>
    let record ← loadSessionRecord directory steward
    return SessionRef.of (ownMachine machineIdentity record) record

/-- The steward that `--by` names. -/
def namedSteward (args : LineageAdoptArgs) : Except CliError (Option SessionRef) :=
  match args.by_ with
  | none => .ok none
  | some steward => (stewardRef isTimestamp machineIdentity directory steward args).map some

/-- A managed session may only name itself. -/
def mayAdopt (caller : Caller) (args : LineageAdoptArgs) (steward : Option SessionRef) : Bool :=
  match caller with
  | .operator => true
  | .session id createdAt =>
    args.byMachine.isNone && steward.any fun steward =>
      steward.sessionId = id && steward.sessionCreatedAt = createdAt

/-- The change of the child's record. -/
def adoptRecord (steward : Option SessionRef) (ifRevision : Option Nat)
    (now : String) (record : SessionRecord) : Except CliError SessionRecord :=
  if steward.any fun steward => reaches directory steward record.id record.createdAt then
    .error adoptionLoop
  else
    let current := (record.lineageAdoption.map (·.revision)).getD 0
    if ifRevision.any (· ≠ current) then .error revisionConflict
    else .ok { record with
      lineageAdoption := some ⟨steward, current + 1, now⟩
      updatedAt := now }

/-- A record written back. -/
def Directory.write (record : SessionRecord) : Directory :=
  directory.map fun r => if r.id = record.id then record else r

def adopt (caller : Caller) (args : LineageAdoptArgs) (now : String) (directory : Directory) :
    Except CliError Directory := do
  validateId args.child
  let steward ← namedSteward isTimestamp machineIdentity directory args
  if mayAdopt caller args steward then
    let record ← loadSessionRecord directory args.child
    return directory.write (← adoptRecord directory steward args.ifRevision now record)
  else .error adoptForbidden

end

/-- The record that a start writes. -/
def newRecord (seed : LineageSeed) (id createdAt : String) (launchId : String) : SessionRecord where
  id := id
  createdAt := createdAt
  updatedAt := createdAt
  launchId := some launchId
  lineage := some (seed.finalize id createdAt)
  lineageAdoption := none

def sessionExists : CliError := .runtimeErr "session-exists" "session already exists"

/-- The lineage of `start_session`. -/
def start (seed : LineageSeed) (id createdAt launchId : String) (directory : Directory) :
    Except CliError Directory :=
  match validateId id with
  | .error e => .error e
  | .ok () =>
    if directory.any (·.id = id) then .error sessionExists
    else .ok (directory ++ [newRecord seed id createdAt launchId])

end NilsCli.Lineage
