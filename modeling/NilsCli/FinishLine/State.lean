import NilsCli.Lib.Durable
import NilsCli.Lib.Guard
import NilsCli.Lib.Saturating
import NilsCli.Lib.Table
import NilsCli.Lib.Text

/-!
# The state of a finish line

A repository has two state files. The main one holds the generation of the repository, its sessions
with their validation targets, and the edits, shell commands and validation runs (`State`).
-/

namespace NilsCli.FinishLine

open Lib

variable (main s : State)

/-- Tables are compared row by row, so that a comparison can be evaluated. -/
scoped instance {ν : Type} [DecidableEq ν] : DecidableEq (Table String ν) := fun t t' =>
  decidable_of_iff (t.entries = t'.entries) ⟨AList.ext, congrArg _⟩

structure HookError where
  code : String
  message : String
  deriving DecidableEq

/-! ## The main state -/

structure OwnerProcess where
  pid : Nat
  startTicks : Nat
  bootId : String
  namespaceDev : Nat
  namespaceIno : Nat
  uid : Nat
  deriving DecidableEq

inductive TargetStatus where
  | pending
  | success
  | failure
  deriving DecidableEq

structure TargetState where
  intent : String
  contractDigest : String
  generation : Nat
  attemptSequence : Nat
  status : TargetStatus
  deriving DecidableEq

structure SessionState where
  ownerProcess : Option OwnerProcess
  targets : Table String TargetState
  runnerCapabilityDigest : Option String
  runnerCapabilityIncarnation : Option Nat
  capabilityLeaseExpiresAtEpoch : Option Nat
  deriving DecidableEq

def SessionState.default : SessionState := ⟨none, ∅, none, none, none⟩

structure ReleasedSession where
  capabilityDigest : String
  sessionKey : Option String
  sequence : Nat
  deriving DecidableEq

inductive StoredOperationKind where
  | edit
  | shell
  | validation
  deriving DecidableEq

inductive CompletionDisposition where
  | applied
  | stale
  | superseded
  deriving DecidableEq

inductive NormalizedOutcome where
  | success (exitCode : Nat)
  | failure (exitCode : Nat)
  deriving DecidableEq

structure StoredExecution where
  exitCode : Option Int
  signal : Option String
  timedOut : Bool
  aborted : Bool
  deriving DecidableEq

/-- The execution ended with exit code 0, without a signal, a timeout or an abort. -/
def StoredExecution.clean (e : StoredExecution) : Bool :=
  e.exitCode = some 0 && e.signal.isNone && !e.timedOut && !e.aborted

def StoredExecution.outcome (e : StoredExecution) : NormalizedOutcome :=
  if e.clean then .success 0
  else .failure (((e.exitCode.filter fun code => 0 < code ∧ code ≤ 255).map Int.toNat).getD 1)

structure TerminalOperation where
  outcome : NormalizedOutcome
  disposition : CompletionDisposition
  execution : Option StoredExecution
  deriving DecidableEq

structure OperationRecord where
  sessionKey : String
  turnKey : String
  tokenDigest : String
  generation : Nat
  sequence : Nat
  kind : StoredOperationKind
  targetDigest : Option String
  contractDigest : Option String
  terminal : Option TerminalOperation
  activeUnit : Option String
  deriving DecidableEq

structure State where
  generation : Nat
  nextSequence : Nat
  contractDigest : Option String
  sessions : Table String SessionState
  operations : Table String OperationRecord
  releasedSessions : Table String ReleasedSession
  expiredReclaimCursor : Option String
  deriving DecidableEq

def State.new : State := ⟨0, 0, none, ∅, ∅, ∅, none⟩

/-! ## The acceptance state -/

inductive ValidatorExecution where
  | hostObserved
  | containedBash (intent commandDigest targetDigest validationContractDigest : String)
  deriving DecidableEq

structure ValidatorContract where
  bindingDigest : String
  execution : ValidatorExecution
  deriving DecidableEq

structure RequirementContract where
  validators : Table String ValidatorContract
  deriving DecidableEq

structure AcceptanceContract where
  requirements : Table String RequirementContract
  invalidators : List String
  deriving DecidableEq

inductive RequirementStatus where
  | active
  | satisfied
  | failed
  | uncertain
  | infrastructureBlocked
  deriving DecidableEq

inductive ObservationStatus where
  | succeeded
  | failed
  | cancelled
  | timedOut
  | signalled
  | uncertain
  | infrastructureBlocked
  deriving DecidableEq

def ObservationStatus.requirementStatus : ObservationStatus → RequirementStatus
  | .succeeded => .satisfied
  | .failed => .failed
  | .cancelled | .timedOut | .signalled | .uncertain => .uncertain
  | .infrastructureBlocked => .infrastructureBlocked

structure RequirementEvidence where
  contractDigest : String
  generation : Nat
  attemptSequence : Nat
  validatorId : String
  status : RequirementStatus
  deriving DecidableEq

structure AcceptanceSession where
  contractDigest : String
  contract : AcceptanceContract
  evidence : Table String RequirementEvidence
  claimedSources : List String
  claimedSourcesGeneration : Option Nat
  sequence : Nat
  deriving DecidableEq

inductive AcceptanceOperationKind where
  | mutation
  | validator (requirement validatorId : String)
  | completion
  deriving DecidableEq

inductive AdmissionStatus where
  | reserved
  | admitted
  deriving DecidableEq

structure AcceptanceTerminal where
  observation : ObservationStatus
  sourceDigest : String
  disposition : CompletionDisposition
  deriving DecidableEq

structure AcceptanceOperation where
  sessionKey : String
  turnKey : String
  tokenDigest : String
  capabilityDigest : String
  contractDigest : String
  generation : Nat
  sequence : Nat
  bindingDigest : String
  sourceOperationKey : Option String
  kind : AcceptanceOperationKind
  admission : AdmissionStatus
  terminal : Option AcceptanceTerminal
  deriving DecidableEq

structure AcceptanceState where
  nextSequence : Nat
  sessions : Table String AcceptanceSession
  operations : Table String AcceptanceOperation
  deriving DecidableEq

def AcceptanceState.new : AcceptanceState := ⟨0, ∅, ∅⟩

/-! ## The repository -/

/-- The two state files of a repository. -/
structure Files where
  main : State
  acceptance : AcceptanceState
  deriving DecidableEq

abbrev Locked (α : Type) := Durable Files HookError α

/-- `Store::save`. -/
def saveMain : Locked Unit := Durable.write fun files => { files with main }

/-- `acceptance::save_state`. -/
def saveAcceptance (acceptance : AcceptanceState) : Locked Unit :=
  Durable.write fun files => { files with acceptance }

structure Host where
  operationKey : String → String → String
  releasedSessionKey : String → String → String
  openRunnerCapability : String → String → Option Nat → String
  runnerCapabilityDigest : String → String → String
  digestParts : String → List String → String
  /-- The file is over its limits once every operation in it has ended. -/
  overLimit : AcceptanceState → Bool

/-- A request of a session, after its checks. -/
structure RequestIdentity where
  sessionKey : String
  turnKey : String
  deriving DecidableEq

structure ValidationTarget where
  intent : String
  command : String
  contractDigest : String
  targetDigest : String
  deriving DecidableEq

structure ContractSnapshot where
  globalDigest : String
  targets : List ValidationTarget

def maxSessions : Nat := 64
def maxTargets : Nat := 128
def maxOperations : Nat := 512
def maxReleaseTombstones : Nat := 64
def maxExpiredOrphanCandidates : Nat := 8
def maxExpiredOrphanOperations : Nat := 16
def compactionTriggerOperations : Nat := 256
def compactedOperationCount : Nat := 192
def maxClaimedSources : Nat := 512

/-- `finish_line_unavailable`, `finish_line_temporary`, `HookError::data`. -/
def hookError (code message : String) : HookError := ⟨code, message⟩

def checkedSucc (n : Nat) (e : HookError) : Except HookError Nat :=
  if n < u64Max then .ok (n + 1) else .error e

theorem checkedSucc_ok {n m : Nat} {e : HookError} (h : checkedSucc n e = .ok m) : m = n + 1 := by
  unfold checkedSucc at h
  split at h
  · exact (Except.ok.inj h).symm
  · cases h

def oldestKeys {ν : Type} (sequence : ν → Nat) (selected : ν → Bool) (count : Nat)
    (table : Table String ν) : List String :=
  ((sortBy (fun (a b : Nat × String) => a.1 < b.1 || (a.1 = b.1 && textLe a.2 b.2))
    ((table.entries.filter fun row => selected row.2).map fun row =>
      (sequence row.2, row.1))).take count).map (·.2)

/-- `State::next_sequence`. -/
def State.takeSequence : Except HookError (Nat × State) := do
  let sequence ← checkedSucc s.nextSequence
    (hookError "finish-line-generation-exhausted" "finish-line sequence is exhausted")
  .ok (sequence, { s with nextSequence := sequence })

/-- `AcceptanceState::next_sequence`. -/
def AcceptanceState.takeSequence (a : AcceptanceState) :
    Except HookError (Nat × AcceptanceState) := do
  let sequence ← checkedSucc a.nextSequence
    (hookError "finish-line-generation-exhausted" "finish-line acceptance sequence is exhausted")
  .ok (sequence, { a with nextSequence := sequence })

/-! ## Compaction -/

def SessionState.currentTargets (generation : Nat) (session : SessionState) : SessionState :=
  { session with targets := session.targets.filter fun _ target => target.generation = generation }

/-- `compact_obsolete_sessions`. -/
def State.compactSessions : State :=
  { s with
    sessions := (s.sessions.mapVal fun _ session => session.currentTargets s.generation).filter
      fun _ session => session.targets.size ≠ 0 || session.runnerCapabilityDigest.isSome }

/-- `compact_state` of the main file. -/
def State.compact (s : State) : State :=
  let s := s.compactSessions
  if s.operations.size < compactionTriggerOperations then s
  else
    let dropped := oldestKeys (·.sequence) (·.terminal.isSome)
      (s.operations.size - compactedOperationCount) s.operations
    { s with operations := s.operations.filter fun key _ => key ∉ dropped }

/-- `compact_release_tombstones`. -/
def State.compactTombstones : State :=
  if s.releasedSessions.size ≤ maxReleaseTombstones then s
  else
    let dropped := oldestKeys (·.sequence) (fun _ => true)
      (s.releasedSessions.size - maxReleaseTombstones) s.releasedSessions
    { s with releasedSessions := s.releasedSessions.filter fun key _ => key ∉ dropped }

/-- `compact_claimed_sources`. -/
def AcceptanceState.compactSources (generation : Nat) (a : AcceptanceState) : AcceptanceState :=
  { a with
    sessions := a.sessions.mapVal fun _ session =>
      match session.claimedSourcesGeneration with
      | some claimed =>
        if claimed ≠ generation then
          { session with claimedSources := [], claimedSourcesGeneration := some generation }
        else session
      | none => { session with claimedSourcesGeneration := some generation } }

/-- `compact_state` of the acceptance file. -/
def AcceptanceState.compact (generation : Nat) (a : AcceptanceState) : AcceptanceState :=
  let a := a.compactSources generation
  if a.operations.size < compactionTriggerOperations then a
  else
    let dropped := oldestKeys (·.sequence)
      (fun operation => operation.terminal.isSome &&
        (operation.kind ≠ .mutation || operation.generation < generation))
      (a.operations.size - compactedOperationCount) a.operations
    { a with operations := a.operations.filter fun key _ => key ∉ dropped }

def AcceptanceState.dropSession (key : String) (a : AcceptanceState) : AcceptanceState :=
  { a with
    sessions := a.sessions.erase key
    operations := a.operations.filter fun _ operation => operation.sessionKey ≠ key }

/-- The loop of `compact_released_sessions`. -/
def dropUntilFits (host : Host) : List String → AcceptanceState → AcceptanceState
  | [], a => a
  | key :: keys, a =>
    let a := a.dropSession key
    if host.overLimit a then dropUntilFits host keys a else a

/-- `compact_released_sessions`. -/
def AcceptanceState.compactReleased (host : Host) (active : Table String SessionState)
    (a : AcceptanceState) : AcceptanceState :=
  if host.overLimit a then
    let released := a.sessions.filter fun key _ =>
      (active.lookup key).isNone && !a.operations.values.any fun operation =>
        operation.sessionKey = key && operation.terminal.isNone
    dropUntilFits host (oldestKeys (·.sequence) (fun _ => true) released.size released) a
  else a

/-! ## Work under way -/

/-- `main_shell_active`. -/
def State.shellActive : Bool :=
  s.operations.values.any fun operation => operation.kind = .shell && operation.terminal.isNone

/-- `repository_mutation_active`. -/
def AcceptanceState.mutationActive (a : AcceptanceState) : Bool :=
  a.operations.values.any fun operation => operation.kind = .mutation && operation.terminal.isNone

/-- The capability of an acceptance operation is the one that its session has now. -/
def capabilityLive (operation : AcceptanceOperation) : Bool :=
  ((main.sessions.lookup operation.sessionKey).bind (·.runnerCapabilityDigest)).any
    (· = operation.capabilityDigest)

/-- `completion_reservation_active`. -/
def completionReserved (files : Files) : Bool :=
  files.acceptance.operations.values.any fun operation =>
    operation.kind = .completion && operation.terminal.isNone &&
      capabilityLive files.main operation

def orphanedCompletion (operation : AcceptanceOperation) : Bool :=
  operation.kind = .completion && operation.terminal.isNone && !capabilityLive main operation

def terminalizeInactive (files : Files) : AcceptanceState :=
  { files.acceptance with
    operations := files.acceptance.operations.mapVal fun _ operation =>
      if orphanedCompletion files.main operation then
        { operation with
          terminal := some ⟨.infrastructureBlocked, "session-orphaned", .applied⟩ }
      else operation }

def terminalizeOrphans : Locked Unit := do
  let files ← Durable.load
  if files.acceptance.operations.values.any (orphanedCompletion files.main) then
    saveAcceptance (terminalizeInactive files)
  else pure ()

end NilsCli.FinishLine
