import NilsCli.FinishLine.Runs

/-!
# Acceptance

A session registers a contract once: named requirements with their validators, and the definitions
of the mutations that invalidate them.
-/

namespace NilsCli.FinishLine

open Lib

variable (host : Host)

variable (authentic : OwnerProcess → Bool) (acceptance : AcceptanceState) (key : String)

/-! ## Contracts -/

def acceptanceSession (contractDigest : String) : Except HookError AcceptanceSession := do
  let session ← orErr (acceptance.sessions.lookup key)
    (hookError "finish-line-acceptance-contract-missing"
      "finish-line acceptance contract is not registered for this DSH session")
  ensure (session.contractDigest = contractDigest)
    (hookError "finish-line-acceptance-contract-drift"
      "finish-line acceptance request does not match the registered contract")
  .ok session

inductive RegisterStatus where
  | duplicate
  | registered

/-- `register`, of a contract in its normal form. -/
def register (authentic : OwnerProcess → Bool) (identity : RequestIdentity) (capability : String)
    (contract : AcceptanceContract) (contractDigest : String) : Locked RegisterStatus := do
  let files ← Durable.load
  let key := identity.sessionKey
  Durable.lift (validateRunnerCapability host authentic files.main identity capability)
  let _ ← Durable.lift (readAcceptance files)
  terminalizeOrphans
  let current ← Durable.load
  let acceptance := current.acceptance.compactSources files.main.generation
  match acceptance.sessions.lookup key with
  | some existing =>
    if existing.contractDigest = contractDigest ∧ existing.contract = contract then do
      let (sequence, acceptance) ← Durable.lift acceptance.takeSequence
      saveAcceptance ({ acceptance with
        sessions := acceptance.sessions.insert key { existing with sequence } }.compactReleased host
          files.main.sessions)
      pure .duplicate
    else
      Durable.lift (.error (hookError "finish-line-acceptance-contract-drift"
        "finish-line acceptance contract is immutable for the active DSH session"))
  | none => do
    let (sequence, acceptance) ← Durable.lift acceptance.takeSequence
    let acceptance := { acceptance with
      sessions := acceptance.sessions.insert key
        ⟨contractDigest, contract, ∅, [], some files.main.generation, sequence⟩ }.compactReleased
          host files.main.sessions
    Durable.lift (ensure (acceptance.sessions.size ≤ maxSessions)
      (hookError "finish-line-state-limit"
        "finish-line acceptance session limit is reached"))
    saveAcceptance acceptance
    pure .registered

/-! ## Admission -/

inductive AdmitOperation where
  | mutation (bindingDigest : String)
  | validator (requirement validatorId bindingDigest : String) (sourceOperationId : Option String)

def AdmitOperation.kind : AdmitOperation → AcceptanceOperationKind
  | .mutation _ => .mutation
  | .validator requirement validatorId _ _ => .validator requirement validatorId

def AdmitOperation.bindingDigest : AdmitOperation → String
  | .mutation bindingDigest => bindingDigest
  | .validator _ _ bindingDigest _ => bindingDigest

def definitionUnregistered : HookError :=
  hookError "finish-line-acceptance-definition-unregistered"
    "finish-line acceptance operation does not match an exact registered definition"

/-- The validator of a requirement in a contract. -/
def AcceptanceContract.validator (contract : AcceptanceContract)
    (requirement validatorId : String) : Option ValidatorContract :=
  (contract.requirements.lookup requirement).bind (·.validators.lookup validatorId)

/-- `validate_admission_binding`: the key of the run that a contained validator will cite. -/
def validateAdmissionBinding (session : AcceptanceSession) (key : String) :
    AdmitOperation → Except HookError (Option String)
  | .mutation bindingDigest => do
    ensure (bindingDigest ∈ session.contract.invalidators) definitionUnregistered
    .ok none
  | .validator requirement validatorId bindingDigest sourceOperationId => do
    let validator ← orErr ((session.contract.validator requirement validatorId).filter
      (·.bindingDigest = bindingDigest)) definitionUnregistered
    match validator.execution, sourceOperationId with
    | .hostObserved, none => .ok none
    | .containedBash _ _ _ _, some operationId => .ok (some (host.operationKey key operationId))
    | .hostObserved, some _ =>
      .error (hookError "finish-line-acceptance-source-operation-invalid"
        "host-observed validators cannot reserve a contained source operation")
    | .containedBash _ _ _ _, none =>
      .error (hookError "finish-line-acceptance-source-operation-invalid"
        "contained Bash validators require a planned finish-line run operation")

def AcceptanceState.admitted (acceptance : AcceptanceState) (operationKey : String) :
    AcceptanceState :=
  { acceptance with
    operations := acceptance.operations.modify operationKey fun operation =>
      { operation with admission := .admitted } }

/-- `reconcile_reserved_mutation`: the rest of an admission that was interrupted. -/
def reconcileReserved (main : State) (acceptance : AcceptanceState) (operationKey : String)
    (operation : AcceptanceOperation) : Locked Unit := do
  Durable.lift (ensure (operation.kind = .mutation)
    (hookError "finish-line-acceptance-state-invalid"
      "only a finish-line acceptance mutation may have a reserved admission"))
  if main.generation < u64Max ∧ main.generation + 1 = operation.generation then
    saveMain ({ main with generation := operation.generation }).compactSessions
  else
    Durable.lift (ensure (main.generation = operation.generation)
      (hookError "finish-line-acceptance-admission-uncertain"
        "finish-line acceptance mutation reservation cannot be reconciled safely"))
  saveAcceptance ((acceptance.admitted operationKey).compactSources operation.generation)

def mutationActiveError : HookError :=
  hookError "finish-line-acceptance-mutation-active"
    "the repository is reserved by an authoritative completion or mutation"

/-- The admission of a new mutation. -/
def admitMutation (files : Files) (acceptance : AcceptanceState) (operationKey : String)
    (operation : AcceptanceOperation) : Locked Unit := do
  Durable.lift (ensure (¬ (acceptance.mutationActive ∨ files.main.shellActive ∨
    completionReserved { files with acceptance })) mutationActiveError)
  let generation ←
    Durable.lift (checkedSucc files.main.generation (generationExhausted "acceptance"))
  let (sequence, acceptance) ← Durable.lift acceptance.takeSequence
  let acceptance := { acceptance with
    operations := acceptance.operations.insert operationKey
      { operation with
        generation, sequence, admission := .reserved } }.compactReleased host files.main.sessions
  saveAcceptance acceptance
  saveMain ({ files.main with generation }).compactSessions
  saveAcceptance ((acceptance.admitted operationKey).compactSources generation)

/-- The admission of a new validator. -/
def admitValidator (files : Files) (acceptance : AcceptanceState) (session : AcceptanceSession)
    (operationKey requirement validatorId : String) (operation : AcceptanceOperation) :
    Locked Unit := do
  Durable.lift (ensure (¬ (acceptance.mutationActive ∨ files.main.shellActive))
    mutationActiveError)
  let generation := files.main.generation
  let (sequence, acceptance) ← Durable.lift acceptance.takeSequence
  Durable.lift (ensure (operation.sourceOperationKey.all fun source =>
      source ∉ session.claimedSources ∧ session.claimedSources.length < maxClaimedSources)
    (hookError "finish-line-acceptance-source-operation-claimed"
      "the contained validation source operation is already claimed"))
  let claimed := match operation.sourceOperationKey with
    | some source => { session with
        claimedSources := session.claimedSources ++ [source]
        claimedSourcesGeneration := some generation }
    | none => session
  saveAcceptance ({ acceptance with
    operations := acceptance.operations.insert operationKey
      { operation with generation, sequence, admission := .admitted }
    sessions := acceptance.sessions.insert operation.sessionKey
      { claimed with
        evidence := claimed.evidence.insert requirement
          ⟨operation.contractDigest, generation, sequence, validatorId, .active⟩ } }.compactReleased
            host files.main.sessions)

def admit_ (identity : RequestIdentity)
    (capability contractDigest operationId attemptToken : String) (request : AdmitOperation) :
    Locked ReserveStatus := do
  let files ← Durable.load
  let key := identity.sessionKey
  let operationKey := host.operationKey key operationId
  let tokenDigest := host.digestParts "agent-hook.finish-line.acceptance-token.v1" [attemptToken]
  let capabilityDigest := host.runnerCapabilityDigest key capability
  Durable.lift (validateRunnerCapability host authentic files.main identity capability)
  let _ ← Durable.lift (readAcceptance files)
  terminalizeOrphans
  let files ← Durable.load
  let acceptance := files.acceptance.compact files.main.generation
  let session ← Durable.lift (acceptanceSession acceptance key contractDigest)
  let source ← Durable.lift (validateAdmissionBinding host session key request)
  match acceptance.operations.lookup operationKey with
  | some existing =>
    if existing.sessionKey = key ∧ existing.turnKey = identity.turnKey ∧
        existing.tokenDigest = tokenDigest ∧ existing.capabilityDigest = capabilityDigest ∧
        existing.contractDigest = contractDigest ∧
        existing.bindingDigest = request.bindingDigest ∧
        existing.sourceOperationKey = source ∧ existing.kind = request.kind then do
      if existing.admission = .reserved then
        reconcileReserved files.main acceptance operationKey existing
      pure .duplicate
    else Durable.lift (.error operationExists)
  | none => do
    Durable.lift (ensure (source.all fun source => (files.main.operations.lookup source).isNone)
      (hookError "finish-line-acceptance-source-operation-exists"
        "the contained validation source operation already predates this admission"))
    Durable.lift (ensure (acceptance.operations.size < maxOperations)
      (hookError "finish-line-state-limit"
        "finish-line acceptance operation limit is reached"))
    let operation : AcceptanceOperation :=
      { sessionKey := key, turnKey := identity.turnKey, tokenDigest, capabilityDigest
        contractDigest, generation := files.main.generation, sequence := 0
        bindingDigest := request.bindingDigest, sourceOperationKey := source
        kind := request.kind, admission := .admitted, terminal := none }
    match request with
    | .mutation _ => admitMutation host files acceptance operationKey operation
    | .validator requirement validatorId _ _ =>
      admitValidator host files acceptance session operationKey requirement validatorId operation
    pure .reserved

/-! ## Observation -/

def operationExecution
    (operation : AcceptanceOperation) : Except HookError (Option ValidatorExecution) :=
  match operation.kind with
  | .validator requirement validatorId => do
    let validator ← orErr
      (((acceptance.sessions.lookup key).filter (·.contractDigest = operation.contractDigest)).bind
        (·.contract.validator requirement validatorId))
      (hookError "finish-line-acceptance-state-invalid"
        "finish-line acceptance validator binding is missing from durable state")
    .ok (some validator.execution)
  | _ => .ok none

inductive Observation where
  | hostObserved (status : ObservationStatus)
  | containedBash (operationId : String) (blocked : Bool)

def observationSourceInvalid : HookError :=
  hookError "finish-line-acceptance-observation-source-invalid"
    "finish-line acceptance terminal source does not match the registered validator execution kind"

def observationBinding (execution : Option ValidatorExecution) :
    Observation → Except HookError (String × Option ObservationStatus × Option String)
  | .hostObserved status =>
    match execution with
    | some (.containedBash _ _ _ _) => .error observationSourceInvalid
    | _ => .ok ("host-observed", some status, none)
  | .containedBash operationId blocked =>
    match execution with
    | some (.containedBash _ _ _ _) =>
      let source := host.operationKey key operationId
      .ok (source, if blocked then some .infrastructureBlocked else none, some source)
    | _ => .error observationSourceInvalid

/-- The status that the facts of a run give. -/
def observedStatus (terminal : TerminalOperation) (facts : StoredExecution) : ObservationStatus :=
  if facts.timedOut then .timedOut
  else if facts.signal.isSome then .signalled
  else if facts.aborted then .cancelled
  else
    match terminal.outcome with
    | .success _ => .succeeded
    | .failure _ => .failed

/-- `derive_contained_observation`. -/
def deriveContained (main : State) (operation : AcceptanceOperation)
    (targetDigest validationContractDigest source : String) : Except HookError ObservationStatus :=
  if operation.generation < main.generation then .ok .uncertain
  else do
    let run ← orErr (main.operations.lookup source)
      (hookError "finish-line-acceptance-contained-operation-missing"
        "finish-line acceptance contained source is not an authoritative run operation")
    ensure (run.sessionKey = operation.sessionKey ∧ run.kind = .validation ∧
        run.generation = operation.generation ∧ run.targetDigest = some targetDigest ∧
        run.contractDigest = some validationContractDigest)
      (hookError "finish-line-acceptance-contained-operation-mismatch"
        "finish-line acceptance contained source does not match the exact validator binding")
    let terminal ← orErr run.terminal
      (hookError "finish-line-acceptance-contained-operation-pending"
        "finish-line acceptance contained source is still pending")
    ensure (terminal.disposition = .applied)
      (hookError "finish-line-acceptance-contained-operation-stale"
        "finish-line acceptance contained source was not applied to its exact generation")
    let facts ← orErr terminal.execution
      (hookError "finish-line-acceptance-state-invalid"
        "finish-line acceptance contained source has no nils-derived execution facts")
    .ok (observedStatus terminal facts)

def settleEvidence (main : State) (session : Option AcceptanceSession)
    (operation : AcceptanceOperation) (status : RequirementStatus) :
    CompletionDisposition × Option AcceptanceSession :=
  if operation.generation ≠ main.generation then (.stale, session)
  else
    match operation.kind with
    | .validator requirement _ =>
      match session.bind fun s => (s.evidence.lookup requirement).map (s, ·) with
      | some (s, evidence) =>
        if evidence.generation = operation.generation ∧
            evidence.contractDigest = operation.contractDigest ∧
            evidence.attemptSequence = operation.sequence then
          (.applied, some { s with
            evidence := s.evidence.insert requirement { evidence with status } })
        else (.superseded, session)
      | none => (.superseded, session)
    | _ => (.applied, session)

def AcceptanceState.settle (main : State) (acceptance : AcceptanceState)
    (operationKey : String) (operation : AcceptanceOperation) (observation : ObservationStatus)
    (sourceDigest : String) : AcceptanceState :=
  let key := operation.sessionKey
  let (disposition, session) := settleEvidence main (acceptance.sessions.lookup key) operation
    observation.requirementStatus
  { acceptance with
    sessions := match session with
      | some session => acceptance.sessions.insert key session
      | none => acceptance.sessions
    operations := acceptance.operations.insert operationKey
      { operation with terminal := some ⟨observation, sourceDigest, disposition⟩ } }

/-- `observe`: the observation that is recorded. -/
def observe (identity : RequestIdentity)
    (capability operationId : String) (observation : Observation) : Locked ObservationStatus := do
  let files ← Durable.load
  let key := identity.sessionKey
  let operationKey := host.operationKey key operationId
  Durable.lift (validateRunnerCapability host authentic files.main identity capability)
  let acceptance ← Durable.lift (readAcceptance files)
  let existing ← Durable.lift (orErr (acceptance.operations.lookup operationKey)
    (hookError "finish-line-acceptance-operation-missing"
      "finish-line acceptance operation is not registered"))
  Durable.lift (ensure (existing.sessionKey = key ∧
      existing.capabilityDigest = host.runnerCapabilityDigest key capability)
    (hookError "finish-line-acceptance-operation-capability-mismatch"
      "finish-line acceptance observation does not own the admitted operation"))
  Durable.lift (ensure (existing.admission = .admitted)
    (hookError "finish-line-acceptance-admission-uncertain"
      "finish-line acceptance mutation admission did not durably complete"))
  let execution ← Durable.lift (operationExecution acceptance key existing)
  let (sourceDigest, stated, source) ←
    Durable.lift (observationBinding host key execution observation)
  Durable.lift (ensure (source.isNone ∨ existing.sourceOperationKey = source)
    (hookError "finish-line-acceptance-contained-operation-mismatch"
      "finish-line acceptance contained source was not reserved by this validator admission"))
  match existing.terminal with
  | some terminal => do
    Durable.lift (ensure (stated.all (terminal.observation = ·) ∧
        terminal.sourceDigest = sourceDigest)
      (hookError "finish-line-acceptance-terminal-conflict"
        "finish-line acceptance operation already has a different terminal observation"))
    pure terminal.observation
  | none => do
    let observed ← Durable.lift <| match stated, execution, source with
      | some observed, _, _ => .ok observed
      | none, some (.containedBash _ _ targetDigest validationContractDigest), some source =>
        deriveContained files.main existing targetDigest validationContractDigest source
      | none, _, _ => .error (hookError "finish-line-acceptance-state-invalid"
        "finish-line acceptance contained source has a host-observed contract")
    saveAcceptance (acceptance.settle files.main operationKey existing observed sourceDigest)
    pure observed

/-! ## Infrastructure failures -/

def mayServe (capabilityDigest : String) (generation : Nat)
    (operation : AcceptanceOperation) : Bool :=
  operation.sessionKey = key && operation.generation = generation &&
    operation.admission = .admitted && operation.terminal.isNone &&
    operation.capabilityDigest = capabilityDigest

def servedBy (capabilityDigest : String) (generation : Nat)
    (targetDigest contractDigest source : String) (operation : AcceptanceOperation) : Bool :=
  mayServe key capabilityDigest generation operation &&
    operation.sourceOperationKey = some source &&
    match operationExecution acceptance key operation with
    | .ok (some (.containedBash _ _ target contract)) =>
      target = targetDigest && contract = contractDigest
    | _ => false

def recordFailure (operationKey : String) (record : OperationRecord) : Locked Unit := do
  let files ← Durable.load
  let capabilityDigest ← Durable.lift (orErr
    ((files.main.sessions.lookup key).bind (·.runnerCapabilityDigest))
    (hookError "finish-line-runner-capability-unavailable"
      "finish-line runner capability state is unavailable"))
  let acceptance ← Durable.lift (readAcceptance files)
  Durable.lift (ensure (∀ operation ∈ acceptance.operations.values,
      mayServe key capabilityDigest record.generation operation →
        (operationExecution acceptance key operation).toBool)
    (hookError "finish-line-acceptance-state-invalid"
      "finish-line acceptance validator binding is missing from durable state"))
  let served := (acceptance.operations.filter fun _ operation =>
    servedBy acceptance key capabilityDigest record.generation (record.targetDigest.getD "")
      (record.contractDigest.getD "") operationKey operation).entries
  saveAcceptance (served.foldl (fun acceptance row =>
    acceptance.settle files.main row.1 row.2 .infrastructureBlocked operationKey) acceptance)

def failValidation (reservation : Reservation) : Locked Unit := do
  let files ← Durable.load
  let _ ← Durable.lift (requireCurrent files.main reservation)
  recordFailure reservation.identity.sessionKey reservation.operationKey reservation.record

def quiesceCheck (identity : RequestIdentity)
    (capability operationId : String) : Locked (Option Reservation) := do
  let files ← Durable.load
  let key := identity.sessionKey
  let operationKey := host.operationKey key operationId
  Durable.lift (validateRunnerCapability host authentic files.main identity capability)
  pure <| match files.main.operations.lookup operationKey with
    | some operation =>
      if operation.sessionKey = key ∧ operation.turnKey = identity.turnKey ∧
          operation.terminal = none then
        some ⟨identity, operationKey, operation⟩
      else none
    | none => none

def State.forget (main : State) (key operationKey : String) (record : OperationRecord) : State :=
  let target := record.targetDigest.getD ""
  { main with
    operations := main.operations.erase operationKey
    sessions :=
      if record.kind = .validation then
        main.sessions.modify key fun session =>
          if (session.targets.lookup target).any fun state =>
              state.generation = record.generation && state.attemptSequence = record.sequence &&
                state.status = .pending then
            { session with targets := session.targets.erase target }
          else session
      else main.sessions }

def quiesceCommit (pending : Reservation) : Locked Unit := do
  let files ← Durable.load
  let key := pending.identity.sessionKey
  let record := pending.record
  let stillPending := (files.main.operations.lookup pending.operationKey).any fun operation =>
    operation.sessionKey = key && operation.turnKey = pending.identity.turnKey &&
      operation.kind = record.kind && operation.generation = record.generation &&
      operation.sequence = record.sequence && operation.terminal.isNone &&
      operation.activeUnit = record.activeUnit
  if stillPending then do
    if record.kind = .validation then
      recordFailure key pending.operationKey record
    saveMain (files.main.forget key pending.operationKey record)
  else saveMain files.main

/-! ## Verdicts -/

inductive VerdictStatus where
  | satisfied
  | missing
  | failed
  | active
  | uncertain
  | infrastructureBlocked
  deriving DecidableEq

def requirementVerdict (session : AcceptanceSession)
    (key requirement capabilityDigest : String) (generation : Nat) (snapshot : ContractSnapshot) :
    VerdictStatus :=
  match session.evidence.lookup requirement with
  | none => .missing
  | some evidence =>
    if evidence.generation ≠ generation ∨ evidence.contractDigest ≠ session.contractDigest then
      .missing
    else
      match session.contract.validator requirement evidence.validatorId with
      | none => .infrastructureBlocked
      | some validator =>
        let drifted := match validator.execution with
          | .containedBash _ _ targetDigest contractDigest => !snapshot.targets.any fun target =>
            target.targetDigest = targetDigest && target.contractDigest = contractDigest
          | .hostObserved => false
        if drifted then .infrastructureBlocked
        else
          match evidence.status with
          | .satisfied => .satisfied
          | .failed => .failed
          | .uncertain => .uncertain
          | .infrastructureBlocked => .infrastructureBlocked
          | .active =>
            let operation := acceptance.operations.values.find? fun operation =>
              operation.sessionKey = key && operation.sequence = evidence.attemptSequence &&
                match operation.kind with
                | .validator _ _ => true
                | _ => false
            if operation.any fun operation => operation.admission = .admitted &&
                operation.terminal.isNone && operation.capabilityDigest = capabilityDigest then
              .active
            else .infrastructureBlocked

/-- Every requirement has been satisfied after the operation, at the current generation. -/
def fullyRevalidated (session : AcceptanceSession) (generation : Nat)
    (operation : AcceptanceOperation) : Bool :=
  session.contract.requirements.keys.all fun requirement =>
    (session.evidence.lookup requirement).any fun evidence =>
      evidence.generation = generation && evidence.contractDigest = session.contractDigest &&
        operation.sequence < evidence.attemptSequence && evidence.status = .satisfied

def mutationVerdict (operation : AcceptanceOperation) (session : AcceptanceSession)
    (generation : Nat) (live : Bool) : VerdictStatus :=
  match operation.terminal with
  | none =>
    if operation.admission = .admitted ∧ operation.generation = generation ∧ live then .active
    else .infrastructureBlocked
  | some terminal =>
    if terminal.disposition ≠ .applied then .satisfied
    else if fullyRevalidated session generation operation then .satisfied
    else
      match terminal.observation with
      | .cancelled | .timedOut | .signalled | .uncertain => .uncertain
      | .infrastructureBlocked => .infrastructureBlocked
      | .succeeded | .failed => .satisfied

def verdictStatuses (main : State) (acceptance : AcceptanceState) (session : AcceptanceSession)
    (key capabilityDigest : String) (snapshot : ContractSnapshot) : List VerdictStatus :=
  let generation := main.generation
  session.contract.requirements.keys.map (fun requirement =>
      requirementVerdict acceptance session key requirement capabilityDigest generation snapshot) ++
    (acceptance.operations.values.filter fun operation => operation.kind = .mutation &&
        (operation.terminal.isNone || operation.generation = generation)).map (fun operation =>
      mutationVerdict operation session generation (capabilityLive main operation)) ++
    (main.operations.values.filter fun operation => operation.kind = .shell &&
        operation.terminal.isNone).map fun operation =>
      if operation.generation = generation then .active else .infrastructureBlocked

def reserveCompletion (files : Files) (acceptance : AcceptanceState) (identity : RequestIdentity)
    (capabilityDigest contractDigest operationId : String) : Locked Unit := do
  let key := identity.sessionKey
  let generation := files.main.generation
  let acceptance := acceptance.compact generation
  let operationKey := host.operationKey key operationId
  match acceptance.operations.lookup operationKey with
  | some existing =>
    Durable.lift (ensure (existing.kind = .completion ∧ existing.sessionKey = key ∧
        existing.turnKey = identity.turnKey ∧ existing.contractDigest = contractDigest ∧
        existing.generation = generation ∧ existing.terminal = none ∧
        existing.capabilityDigest = capabilityDigest) operationExists)
  | none => do
    Durable.lift (ensure (acceptance.operations.size < maxOperations)
      (hookError "finish-line-state-limit"
        "finish-line acceptance operation limit is reached"))
    let (sequence, acceptance) ← Durable.lift acceptance.takeSequence
    saveAcceptance ({ acceptance with
      operations := acceptance.operations.insert operationKey
        { sessionKey := key, turnKey := identity.turnKey
          tokenDigest := host.digestParts "agent-hook.finish-line.completion-reservation.v1"
            [operationId]
          capabilityDigest, contractDigest, generation, sequence
          bindingDigest := host.digestParts "agent-hook.finish-line.completion-binding.v1"
            [contractDigest]
          sourceOperationKey := none, kind := .completion, admission := .admitted
          terminal := none } }.compactReleased host files.main.sessions)

/-- `verdict`: whether it allows completion. -/
def verdict (identity : RequestIdentity)
    (capability contractDigest : String) (completion : Option String)
    (snapshot : ContractSnapshot) : Locked Bool := do
  let files ← Durable.load
  let key := identity.sessionKey
  let capabilityDigest := host.runnerCapabilityDigest key capability
  Durable.lift (validateRunnerCapability host authentic files.main identity capability)
  let _ ← Durable.lift (readAcceptance files)
  terminalizeOrphans
  let files ← Durable.load
  let acceptance := files.acceptance.compactSources files.main.generation
  if acceptance ≠ files.acceptance then saveAcceptance acceptance
  let session ← Durable.lift (acceptanceSession acceptance key contractDigest)
  let allowed := (verdictStatuses files.main acceptance session key capabilityDigest snapshot).all
    (· = .satisfied)
  match completion with
  | some operationId =>
    if allowed then
      reserveCompletion host files acceptance identity capabilityDigest contractDigest operationId
    pure allowed
  | none => pure allowed

end NilsCli.FinishLine
