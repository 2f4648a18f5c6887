import NilsCli.FinishLine.State

/-!
# Sessions

A session is opened with a private capability, whose incarnation is a fresh sequence of the main
file.
-/

namespace NilsCli.FinishLine

open Lib

variable (host : Host)

variable (dead : OwnerProcess → Bool) (main : State) (key capabilityDigest : String)

/-- `read_state` of the acceptance file. -/
def readAcceptance (files : Files) : Except HookError AcceptanceState := do
  ensure (∀ session ∈ files.acceptance.sessions.values,
      session.claimedSourcesGeneration.all (· ≤ files.main.generation))
    (hookError "finish-line-acceptance-state-invalid"
      "finish-line acceptance contained source claims have a future generation")
  .ok files.acceptance

def validateRunnerCapability (authentic : OwnerProcess → Bool) (main : State)
    (identity : RequestIdentity) (capability : String) : Except HookError Unit := do
  let session := main.sessions.lookup identity.sessionKey
  ensure ((session.bind (·.ownerProcess)).all authentic)
    (hookError "finish-line-owner-invalid"
      "finish-line owner must be a verifiable live same-user caller ancestor")
  ensure ((session.bind (·.runnerCapabilityDigest)).any
      (· = host.runnerCapabilityDigest identity.sessionKey capability))
    (hookError "finish-line-runner-capability-invalid"
      "finish-line validation requires the private capability minted for this DSH session")

/-! ## Opening -/

inductive OpenStatus where
  | duplicate
  | opened

def SessionState.grant (session : SessionState) (key attemptToken : String) (incarnation : Nat)
    (owner : Option OwnerProcess) (leaseExpiresAt : Nat) : SessionState :=
  { session with
    ownerProcess := owner
    runnerCapabilityDigest := some (host.runnerCapabilityDigest key
      (host.openRunnerCapability key attemptToken (some incarnation)))
    runnerCapabilityIncarnation := some incarnation
    capabilityLeaseExpiresAtEpoch := some leaseExpiresAt }

/-- `open`, up to the point where it recovers a crashed session or reclaims an expired one. -/
def openSession (identity : RequestIdentity) (attemptToken : String) (owner : Option OwnerProcess)
    (leaseExpiresAt : Nat) : Locked OpenStatus := do
  let files ← Durable.load
  let main := files.main.compactSessions
  let key := identity.sessionKey
  match main.sessions.lookup key with
  | some session =>
    match session.runnerCapabilityDigest with
    | some expected =>
      let digest := host.runnerCapabilityDigest key
        (host.openRunnerCapability key attemptToken session.runnerCapabilityIncarnation)
      if expected ≠ digest ∨ session.ownerProcess ≠ owner then
        Durable.lift (.error (hookError "finish-line-session-active"
          "finish-line session already belongs to a different private open attempt"))
      else do
        saveMain { main with
          sessions := main.sessions.insert key
            { session with capabilityLeaseExpiresAtEpoch := some leaseExpiresAt } }
        pure .duplicate
    | none => do
      let (incarnation, main) ← Durable.lift main.takeSequence
      saveMain { main with
        sessions := main.sessions.insert key
          (session.grant host key attemptToken incarnation owner leaseExpiresAt) }
      pure .opened
  | none => do
    Durable.lift (ensure (main.sessions.size < maxSessions)
      (hookError "finish-line-state-limit" "finish-line session limit is reached"))
    let (incarnation, main) ← Durable.lift main.takeSequence
    saveMain { main with
      sessions := main.sessions.insert key
        (SessionState.default.grant host key attemptToken incarnation owner leaseExpiresAt) }
    pure .opened

/-! ## Recovery of a crashed session -/

structure Snapshot where
  session : SessionState
  operations : Table String OperationRecord
  generation : Nat
  deriving DecidableEq

/-- The operations of a session. -/
def State.operationsOf : Table String OperationRecord :=
  main.operations.filter fun _ operation => operation.sessionKey = key

def takeSnapshot : Option Snapshot :=
  match main.sessions.lookup key with
  | some session =>
    if session.ownerProcess.any dead then
      some ⟨session, main.operationsOf key, main.generation⟩
    else none
  | none => none

/-- `crash_recovery_eligible`. -/
def recoveryEligible (files : Files) (key : String) : Bool :=
  files.acceptance.operations.values.all fun operation =>
    if operation.sessionKey = key && operation.terminal.isNone then
      match operation.kind with
      | .completion => true
      | .mutation => false
      | .validator _ _ =>
        (operation.sourceOperationKey.bind files.main.operations.lookup).any fun source =>
          source.sessionKey = key && (source.terminal.isSome || source.activeUnit.isSome)
    else true

/-- `invalidate_crashed_session`. -/
def AcceptanceState.invalidate (a : AcceptanceState) : AcceptanceState :=
  { a with
    sessions := a.sessions.modify key fun session =>
      { session with evidence := ∅, claimedSources := [], claimedSourcesGeneration := none }
    operations := a.operations.mapVal fun _ operation =>
      if operation.sessionKey = key && operation.terminal.isNone then
        { operation with
          terminal := some ⟨.infrastructureBlocked, "client-crash-recovery", .applied⟩ }
      else operation }

/-- An operation whose unit may still run. -/
def OperationRecord.unsettled (operation : OperationRecord) : Bool :=
  operation.terminal.isNone || operation.activeUnit.isSome

structure Recovery where
  identity : RequestIdentity
  expected : Snapshot
  deriving DecidableEq

/-- The first part of `recover_crashed_session`. -/
def recoverCheck (identity : RequestIdentity) : Locked (Option Recovery) := do
  let files ← Durable.load
  match takeSnapshot dead files.main identity.sessionKey with
  | some expected => do
    let _ ← Durable.lift (readAcceptance files)
    let pending := expected.operations.values.filter (·.unsettled)
    if recoveryEligible files identity.sessionKey ∧
        pending.length ≤ maxExpiredOrphanOperations ∧ pending.all (·.activeUnit.isSome) then
      pure (some ⟨identity, expected⟩)
    else pure none
  | none => pure none

def recoveredGeneration (session : SessionState) : Except HookError Nat :=
  if 0 < main.generation ∨ session.targets.size ≠ 0 then
    checkedSucc main.generation
      (hookError "finish-line-generation-exhausted"
        "finish-line recovery generation is exhausted")
  else .ok main.generation

def recoverCommit (authentic : OwnerProcess → Bool) (quiet : Bool) (recovery : Recovery)
    (attemptToken : String) (newOwner : OwnerProcess) (leaseExpiresAt : Nat) : Locked Bool := do
  let files ← Durable.load
  let key := recovery.identity.sessionKey
  Durable.lift (ensure (authentic newOwner)
    (hookError "finish-line-owner-invalid"
      "finish-line owner must be a verifiable live same-user caller ancestor"))
  let _ ← Durable.lift (readAcceptance files)
  if takeSnapshot dead files.main key = some recovery.expected ∧ recoveryEligible files key ∧
      quiet then do
    let session := recovery.expected.session
    let oldDigest ← Durable.lift (orErr session.runnerCapabilityDigest
      (hookError "finish-line-state-invalid"
        "finish-line crashed session has no capability binding"))
    let generation ← Durable.lift (recoveredGeneration files.main session)
    let (incarnation, main) ← Durable.lift ({ files.main with generation }).takeSequence
    let cleared := { session with targets := ∅ }
    -- the evidence goes first, so that no old success is ever under the new capability
    saveAcceptance (files.acceptance.invalidate key)
    let main : State := { main with
      operations := main.operations.filter fun _ operation => operation.sessionKey ≠ key
      sessions := main.sessions.insert key
        (cleared.grant host key attemptToken incarnation (some newOwner) leaseExpiresAt)
      releasedSessions := main.releasedSessions.insert (host.releasedSessionKey key oldDigest)
        ⟨oldDigest, some key, incarnation⟩ }
    saveMain main.compactTombstones
    pure true
  else pure false

/-! ## Ends of sessions -/

def AcceptanceState.releaseCompletions (a : AcceptanceState) : AcceptanceState :=
  { a with
    operations := a.operations.mapVal fun _ operation =>
      if operation.sessionKey = key && operation.kind = .completion && operation.terminal.isNone &&
          operation.capabilityDigest = capabilityDigest then
        { operation with
          terminal := some ⟨.infrastructureBlocked, "session-release", .applied⟩ }
      else operation }

/-- `acceptance::release_session`. -/
def releaseAcceptance : Locked Unit := do
  let files ← Durable.load
  let acceptance ← Durable.lift (readAcceptance files)
  if acceptance.operations.values.any fun operation =>
      operation.sessionKey = key && operation.kind = .completion && operation.terminal.isNone &&
        operation.capabilityDigest = capabilityDigest then
    saveAcceptance (acceptance.releaseCompletions key capabilityDigest)
  else pure ()

def State.removeSession : Except HookError State := do
  let (sequence, main) ← ({ main with
    operations := main.operations.filter fun _ operation => operation.sessionKey ≠ key
    sessions := main.sessions.erase key }).takeSequence
  .ok ({ main with
    releasedSessions := main.releasedSessions.insert (host.releasedSessionKey key capabilityDigest)
      ⟨capabilityDigest, some key, sequence⟩ }).compactTombstones

def release (authentic : OwnerProcess → Bool) (identity : RequestIdentity) (capability : String) :
    Locked Unit := do
  let files ← Durable.load
  let key := identity.sessionKey
  let supplied := host.runnerCapabilityDigest key capability
  let live := ((files.main.sessions.lookup key).bind (·.runnerCapabilityDigest)).any (· = supplied)
  if ¬ live ∧ files.main.releasedSessions.values.any (·.capabilityDigest = supplied) then
    releaseAcceptance key supplied
  else do
    Durable.lift (validateRunnerCapability host authentic files.main identity capability)
    let acceptance ← Durable.lift (readAcceptance files)
    Durable.lift (ensure
      (¬ ((files.main.operationsOf key).values.any (·.unsettled) ∨
        acceptance.operations.values.any fun operation =>
          operation.sessionKey = key && operation.kind ≠ .completion && operation.terminal.isNone))
      (hookError "finish-line-session-busy" ("finish-line session cannot be released while " ++
        "authoritative execution is pending")))
    let main ← Durable.lift (files.main.removeSession host key supplied)
    saveMain main
    releaseAcceptance key supplied

/-- A session whose lease has expired. -/
structure OrphanCandidate where
  sessionKey : String
  capabilityDigest : String
  capabilityIncarnation : Option Nat
  leaseExpiresAtEpoch : Nat
  /-- The key, the sequence and the unit of each operation that has to be stopped. -/
  operations : List (String × Nat × Option String)
  deriving DecidableEq

def State.unsettledOf : List (String × Nat × Option String) :=
  ((main.operationsOf key).filter fun _ operation => operation.unsettled).entries.map fun row =>
    (row.1, row.2.sequence, row.2.activeUnit)

def orphanCandidate (now : Nat) (main : State) (key : String) (session : SessionState) :
    Option OrphanCandidate := do
  let lease ← session.capabilityLeaseExpiresAtEpoch
  let digest ← session.runnerCapabilityDigest
  let operations := main.unsettledOf key
  guard (session.ownerProcess.isNone ∧ lease ≤ now ∧
    operations.all (·.2.2.isSome) ∧ operations.length ≤ maxExpiredOrphanOperations)
  some ⟨key, digest, session.runnerCapabilityIncarnation, lease, operations⟩

def expiredReclaimWindow (candidates : List OrphanCandidate) (cursor : Option String) :
    List OrphanCandidate × Option String :=
  let start := match cursor.bind fun cursor => candidates.findIdx? (·.sessionKey = cursor) with
    | some index => (index + 1) % candidates.length
    | none => 0
  let selected := (List.range (min candidates.length maxExpiredOrphanCandidates)).filterMap
    fun offset => candidates[(start + offset) % candidates.length]?
  (selected, selected.getLast?.map (·.sessionKey))

def reclaimScan (now : Nat) : Locked (List OrphanCandidate) := do
  let files ← Durable.load
  let candidates := sortBy (fun a b => a.leaseExpiresAtEpoch < b.leaseExpiresAtEpoch ||
      (a.leaseExpiresAtEpoch = b.leaseExpiresAtEpoch && textLe a.sessionKey b.sessionKey))
    (files.main.sessions.entries.filterMap fun row =>
      orphanCandidate now files.main row.1 row.2)
  let (selected, cursor) := expiredReclaimWindow candidates files.main.expiredReclaimCursor
  saveMain { files.main with expiredReclaimCursor := cursor }
  pure selected

def reclaimCommit (now : Nat) (candidate : OrphanCandidate) : Locked Bool := do
  let files ← Durable.load
  let matchesSession := (files.main.sessions.lookup candidate.sessionKey).any fun session =>
    session.ownerProcess.isNone &&
      session.capabilityLeaseExpiresAtEpoch = some candidate.leaseExpiresAtEpoch &&
      session.runnerCapabilityIncarnation = candidate.capabilityIncarnation &&
      session.runnerCapabilityDigest = some candidate.capabilityDigest
  if matchesSession ∧ candidate.leaseExpiresAtEpoch ≤ now ∧
      files.main.unsettledOf candidate.sessionKey = candidate.operations then do
    let main ← Durable.lift
      (files.main.removeSession host candidate.sessionKey candidate.capabilityDigest)
    saveMain main
    pure true
  else pure false

end NilsCli.FinishLine
