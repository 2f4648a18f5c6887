import NilsCli.FinishLine.Sessions

/-!
# Edits, validation runs and shell commands

An edit is registered in one step and moves the generation of the repository.
-/

namespace NilsCli.FinishLine

open Lib

variable (host : Host)

variable (main : State) (reservation : Reservation) (key : String)

/-- `ensure_state_capacity`. -/
def ensureCapacity : Except HookError Unit := do
  ensure (main.operations.size < maxOperations)
    (hookError "finish-line-state-limit" "finish-line operation limit is reached")
  ensure (main.sessions.size < maxSessions ∨ (main.sessions.lookup key).isSome)
    (hookError "finish-line-state-limit" "finish-line session limit is reached")

/-- The session of a key, or a new one. -/
def State.sessionOr : SessionState :=
  (main.sessions.lookup key).getD .default

def ensureNoMutation (acceptance : AcceptanceState) (main : State) : Except HookError Unit :=
  ensure (¬ (acceptance.mutationActive ∨ main.shellActive))
    (hookError "finish-line-repository-mutation-active"
      "a prior repository mutation is still active")

def ensureNotReserved : Locked Unit := do
  terminalizeOrphans
  let files ← Durable.load
  Durable.lift (ensure (¬ completionReserved files)
    (hookError "finish-line-completion-reserved"
      "the repository is reserved by an authoritative completion"))

def generationExhausted (of : String) : HookError :=
  hookError "finish-line-generation-exhausted" ("finish-line " ++ of ++ " generation is exhausted")

def operationExists : HookError :=
  hookError "finish-line-operation-exists"
    "finish-line operation_id is already registered with a different binding"

inductive ReserveStatus where
  | duplicate
  | reserved

/-- `begin`, without the reclaim at full capacity. -/
def beginEdit (authentic : OwnerProcess → Bool) (identity : RequestIdentity)
    (operationId attemptToken : String) (snapshot : ContractSnapshot) : Locked ReserveStatus := do
  let files ← Durable.load
  let key := identity.sessionKey
  let operationKey := host.operationKey key operationId
  let tokenDigest := host.digestParts "agent-hook.finish-line.token.v1" [attemptToken]
  Durable.lift (ensure (((files.main.sessions.lookup key).bind (·.ownerProcess)).all authentic)
    (hookError "finish-line-owner-invalid"
      "finish-line owner must be a verifiable live same-user caller ancestor"))
  match files.main.operations.lookup operationKey with
  | some existing =>
    if existing.sessionKey = key ∧ existing.turnKey = identity.turnKey ∧ existing.kind = .edit ∧
        existing.targetDigest = none ∧ existing.contractDigest = none ∧
        existing.tokenDigest = tokenDigest then do
      saveMain files.main
      pure .duplicate
    else Durable.lift (.error operationExists)
  | none => do
    let main := files.main.compact
    Durable.lift (ensureCapacity main key)
    let _ ← Durable.lift (readAcceptance files)
    ensureNotReserved
    let current ← Durable.load
    Durable.lift (ensureNoMutation current.acceptance main)
    let generation ← Durable.lift (checkedSucc main.generation (generationExhausted "edit"))
    let (sequence, main) ← Durable.lift ({ main with generation }).compactSessions.takeSequence
    saveMain { main with
      sessions := main.sessions.insert key (main.sessionOr key)
      operations := main.operations.insert operationKey
        { sessionKey := key, turnKey := identity.turnKey, tokenDigest, generation, sequence
          kind := .edit, targetDigest := none, contractDigest := none
          terminal := some ⟨.success 0, .applied, none⟩, activeUnit := none }
      contractDigest := some snapshot.globalDigest }
    pure .reserved

/-! ## Validation runs -/

structure Reservation where
  identity : RequestIdentity
  operationKey : String
  record : OperationRecord
  deriving DecidableEq

/-- The record of a validation run. -/
def validationRecord (identity : RequestIdentity) (operationKey : String)
    (target : ValidationTarget) (generation sequence : Nat) (unit : String) : OperationRecord :=
  { sessionKey := identity.sessionKey, turnKey := identity.turnKey
    tokenDigest := host.digestParts "agent-hook.finish-line.nils-runner.v1" [operationKey]
    generation, sequence, kind := .validation, targetDigest := some target.targetDigest
    contractDigest := some target.contractDigest, terminal := none, activeUnit := some unit }

/-- The main state with a validation run reserved. -/
def State.reserveValidation (identity : RequestIdentity) (operationKey : String)
    (target : ValidationTarget) (sequence : Nat) (unit : String) (snapshot : ContractSnapshot) :
    State :=
  let key := identity.sessionKey
  let session := main.sessionOr key
  { main with
    sessions := main.sessions.insert key
      { session with
        targets := session.targets.insert target.targetDigest
          ⟨target.intent, target.contractDigest, main.generation, sequence, .pending⟩ }
    operations := main.operations.insert operationKey
      (validationRecord host identity operationKey target main.generation sequence unit)
    contractDigest := some snapshot.globalDigest }

def reserveValidation (authentic : OwnerProcess → Bool) (identity : RequestIdentity)
    (capability operationId : String) (target : ValidationTarget) (unit : String)
    (snapshot : ContractSnapshot) : Locked (Option Reservation) := do
  let files ← Durable.load
  let key := identity.sessionKey
  let operationKey := host.operationKey key operationId
  Durable.lift (validateRunnerCapability host authentic files.main identity capability)
  match files.main.operations.lookup operationKey with
  | some existing =>
    if existing.sessionKey = key ∧ existing.turnKey = identity.turnKey ∧
        existing.kind = .validation ∧ existing.targetDigest = some target.targetDigest ∧
        existing.contractDigest = some target.contractDigest then do
      saveMain files.main
      pure none
    else Durable.lift (.error operationExists)
  | none => do
    let main := files.main.compact.compactSessions
    Durable.lift (ensureCapacity main key)
    let acceptance ← Durable.lift (readAcceptance files)
    Durable.lift (ensure (¬ acceptance.mutationActive)
      (hookError "finish-line-repository-mutation-active"
        "a repository mutation is still active"))
    let (sequence, main) ← Durable.lift main.takeSequence
    let targets := (main.sessionOr key).targets
    Durable.lift (ensure (targets.size < maxTargets ∨
        (targets.lookup target.targetDigest).isSome)
      (hookError "finish-line-state-limit" "finish-line target limit is reached"))
    saveMain (main.reserveValidation host identity operationKey target sequence unit snapshot)
    pure (some ⟨identity, operationKey,
      validationRecord host identity operationKey target main.generation sequence unit⟩)

/-- `require_current_reservation`. -/
def requireCurrent : Except HookError OperationRecord := do
  let superseded := hookError "finish-line-operation-superseded"
    "finish-line runner reservation is no longer current"
  let operation ← orErr (main.operations.lookup reservation.operationKey) superseded
  let record := reservation.record
  ensure (operation.sessionKey = record.sessionKey ∧ operation.turnKey = record.turnKey ∧
      operation.tokenDigest = record.tokenDigest ∧ operation.generation = record.generation ∧
      operation.sequence = record.sequence ∧ operation.kind = record.kind ∧
      operation.targetDigest = record.targetDigest ∧
      operation.contractDigest = record.contractDigest ∧
      operation.activeUnit = record.activeUnit ∧ operation.terminal = none) superseded
  .ok operation

def settleTarget (session : SessionState) (record : OperationRecord)
    (outcome : NormalizedOutcome) (contractCurrent : Bool) :
    CompletionDisposition × SessionState :=
  let target := record.targetDigest.getD ""
  if record.generation ≠ main.generation ∨ ¬ contractCurrent then (.stale, session)
  else
    match session.targets.lookup target with
    | some state =>
      if state.generation = record.generation ∧ state.attemptSequence = record.sequence then
        (.applied, { session with
          targets := session.targets.insert target
            { state with
              status := match outcome with
                | .success _ => .success
                | .failure _ => .failure } })
      else (.superseded, session)
    | none => (.superseded, session)

/-- An operation that has ended. -/
def OperationRecord.settle (record : OperationRecord) (execution : StoredExecution)
    (disposition : CompletionDisposition) : OperationRecord :=
  { record with
    terminal := some ⟨execution.outcome, disposition, some execution⟩, activeUnit := none }

def completeValidation (execution : StoredExecution)
    (snapshot : ContractSnapshot) : Locked CompletionDisposition := do
  let files ← Durable.load
  let main := files.main
  let operation ← Durable.lift (requireCurrent main reservation)
  let record := reservation.record
  let contractCurrent := snapshot.targets.any fun candidate =>
    some candidate.targetDigest = record.targetDigest &&
      some candidate.contractDigest = record.contractDigest
  let key := reservation.identity.sessionKey
  let (disposition, session) :=
    settleTarget main (main.sessionOr key) record execution.outcome contractCurrent
  let sessions := if (main.sessions.lookup key).isSome then main.sessions.insert key session
    else main.sessions
  saveMain { main with
    sessions
    operations := main.operations.insert reservation.operationKey
      (operation.settle execution disposition)
    contractDigest := some snapshot.globalDigest }
  pure disposition

/-- `run_ordinary_shell`, up to its reservation; `shellDigest` is that of the command. -/
def reserveShell (authentic : OwnerProcess → Bool) (identity : RequestIdentity)
    (capability operationId shellDigest unit : String) (snapshot : ContractSnapshot) :
    Locked (Option Reservation) := do
  let files ← Durable.load
  let key := identity.sessionKey
  let operationKey := host.operationKey key operationId
  Durable.lift (validateRunnerCapability host authentic files.main identity capability)
  match files.main.operations.lookup operationKey with
  | some existing =>
    if existing.sessionKey = key ∧ existing.turnKey = identity.turnKey ∧
        existing.kind = .shell ∧ existing.targetDigest = some shellDigest ∧
        existing.contractDigest = none then do
      saveMain files.main
      pure none
    else Durable.lift (.error operationExists)
  | none => do
    let main := files.main.compact
    Durable.lift (ensureCapacity main key)
    let _ ← Durable.lift (readAcceptance files)
    ensureNotReserved
    let current ← Durable.load
    Durable.lift (ensureNoMutation current.acceptance main)
    let generation ← Durable.lift (checkedSucc main.generation (generationExhausted "shell"))
    let (sequence, main) ← Durable.lift ({ main with generation }).compactSessions.takeSequence
    let record : OperationRecord :=
      { sessionKey := key, turnKey := identity.turnKey
        tokenDigest := host.digestParts "agent-hook.finish-line.shell-runner.v1"
          [operationKey, shellDigest]
        generation, sequence, kind := .shell, targetDigest := some shellDigest
        contractDigest := none, terminal := none, activeUnit := some unit }
    saveMain { main with
      sessions := main.sessions.insert key (main.sessionOr key)
      operations := main.operations.insert operationKey record
      contractDigest := some snapshot.globalDigest }
    pure (some ⟨identity, operationKey, record⟩)

/-- The end of `run_ordinary_shell`. -/
def completeShell (execution : StoredExecution) (snapshot : ContractSnapshot) : Locked Unit := do
  let files ← Durable.load
  let operation ← Durable.lift (requireCurrent files.main reservation)
  saveMain { files.main with
    operations := files.main.operations.insert reservation.operationKey
      (operation.settle execution .applied)
    contractDigest := some snapshot.globalDigest }

/-- The target has succeeded at the current generation, under its current contract. -/
def targetSatisfied (target : ValidationTarget) : Bool :=
  ((main.sessions.lookup key).bind (·.targets.lookup target.targetDigest)).any fun state =>
    state.generation = main.generation && state.contractDigest = target.contractDigest &&
      state.status = .success

/-- `stop`: whether the session may stop. -/
def stopAllows (snapshot : ContractSnapshot) : Bool :=
  let sessionActive := (main.sessions.lookup key).any (·.targets.size ≠ 0)
  if 0 < main.generation || sessionActive then
    main.contractDigest = some snapshot.globalDigest &&
      snapshot.targets.all (targetSatisfied main key)
  else true

end NilsCli.FinishLine
