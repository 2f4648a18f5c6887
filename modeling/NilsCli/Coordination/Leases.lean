import NilsCli.Coordination.Receipts

/-!
# Operation leases (`claims.rs`)

How a lease ends: a queued completion event is drained into it, an operator attests it inactive,
or maintenance reclaims it after its safety time.
-/

namespace NilsCli.Coordination

open Lib

variable (event : CompletionEvent) (lease : OperationLease)

/-! ## Errors -/

def revisionConflict (code : String) : CliError :=
  .dataErr code "coordination revision fence did not match"

def claimUnavailable : CliError :=
  .dataErr "claim-not-active" "no matching active work claim exists"

def operationUnavailable : CliError :=
  .dataErr "operation-not-found" "operation lease was not found"

def operationInProgress : CliError :=
  .dataErr "operation-in-progress"
    "the claim remains bound to an active or uncertain mutation operation"

def unauthorized : CliError :=
  .dataErr "coordination-unauthorized" "coordination authority could not be verified"

/-- `incarnation(record)`. -/
def incarnation (record : SessionRecord) : Except CliError String :=
  orErr ((record.runtime.map fun runtime => trim runtime.launchId).filter (· ≠ ""))
    (.dataErr "session-incarnation-conflict" "session incarnation is unavailable")

def publicContext (claim : WorkContextRecord) : WorkContextRecord :=
  { claim with terminalAtEpoch := none }

/-- `public_lease`: the removed fields are blank. -/
def publicLease : OperationLease :=
  { lease with
    terminalAtEpoch := none
    executionTokenDigest := ⟨""⟩
    activityRevision := 0
    activityIdentityDigest := ⟨""⟩
    runtimeIdentityDigest := ""
    descendant := none }

/-! ## Controller evidence -/

def activityIdentityDigest (activity : TurnState) : TextDigest :=
  digestBytes <| match activity.currentTurn, activity.lastTurn with
    | some turn, _ => "turn:" ++ turn.providerTurnId.getD turn.startedAt
    | none, some turn => "idle:" ++ turn.providerTurnId.getD "" ++ ":" ++ turn.completedAt
    | none, none => "idle:initial"

def controllerActivitySupersedesLease (activity : TurnState) (digest : TextDigest) : Bool :=
  activityIdentityDigest activity ≠ digest &&
    match activity.phase with
    | .waiting => activity.currentTurn.isNone
    | .starting | .working | .needsInput => activity.currentTurn.isSome
    | .unknown | .unresponsive => false

def descendantIsLive (env : Env) (descendant : DescendantIdentity) : Bool :=
  env.descendantStatus descendant = .live

def controllerObservedQuiescent (env : Env) (record : SessionRecord) (lease : OperationLease) :
    Bool :=
  !(lease.descendant.any (descendantIsLive env)) &&
    (env.stateForView record).any fun activity =>
      controllerActivitySupersedesLease activity lease.activityIdentityDigest

/-! ## Completion events -/

/-- The lease that an event or a request names. -/
def OperationLease.isNamed (sessionId incarnation leaseId : String) : Bool :=
  lease.sessionId = sessionId && lease.sessionIncarnation = incarnation &&
    lease.leaseId = leaseId

/-- The event names this lease. -/
def CompletionEvent.names : Bool :=
  lease.isNamed event.sessionId event.sessionIncarnation event.leaseId

def CompletionEvent.revisionMatches : Bool :=
  lease.revision = event.ifRevision ||
    ((lease.state = .completing || lease.state = .reconcilePending) &&
      lease.revision = u64Succ event.ifRevision)

/-- The drain accepts the event for this lease. -/
def CompletionEvent.accepts : Bool :=
  event.revisionMatches lease && lease.executionTokenDigest = event.executionTokenDigest &&
    lease.nonterminal

/-- The terminal state of an outcome. -/
def CompletionOutcome.state : CompletionOutcome → LeaseState
  | .pass => .completed
  | .fail => .failed

def completeLease (outcome : CompletionOutcome) (now : Int) (lease : OperationLease) :
    OperationLease :=
  { lease with
    revision := u64Succ lease.revision
    state := outcome.state
    outcome := some (.completion outcome)
    terminalAtEpoch := some now }

def CompletionEvent.receiptKey : ReceiptKey :=
  ⟨event.sessionId, event.sessionIncarnation, .workContextComplete, event.idempotencyKey⟩

variable (codec : Codec)

variable (env : Env) (registry : Registry) (sessionId sessionIncarnation : String)

def drainCompletionEvent (eventId : EventId) (now : Int) : Except CliError (Registry × Bool) :=
  match registry.completionEvents.find? fun event => event.eventId = eventId with
  | none => .ok (registry, false)
  | some event =>
    match registry.operations.find? event.names with
    | none => .ok (registry, false)
    | some lease =>
      if !event.accepts lease then .ok (registry, false)
      else do
        let completed := completeLease event.outcome now lease
        let registry ← storeReceipt codec registry event.receiptKey event.requestDigest
          (.lease (publicLease completed)) now
        pure ({ registry with
          operations := updateFirst event.names (completeLease event.outcome now)
            registry.operations
          completionEvents := registry.completionEvents.filter fun candidate =>
            candidate.eventId ≠ eventId }, true)

def drainEvents (now : Int) : Registry → List EventId → Except CliError (Registry × Nat)
  | registry, [] => .ok (registry, 0)
  | registry, eventId :: rest => do
    let (registry, drained) ← drainCompletionEvent codec registry eventId now
    let (registry, count) ← drainEvents now registry rest
    pure (registry, (if drained then 1 else 0) + count)

/-- `drain_completion_events_in_registry`. -/
def drainCompletionEvents (now : Int) : Except CliError (Registry × Nat) :=
  drainEvents codec now registry (registry.completionEvents.map (·.eventId))

def drainCompletionEventsForLease (leaseId : String) (now : Int) :
    Except CliError (Registry × Nat) :=
  drainEvents codec now registry ((registry.completionEvents.filter fun event =>
    event.sessionId = sessionId && event.sessionIncarnation = sessionIncarnation &&
      event.leaseId = leaseId).map (·.eventId))

/-! ## Abandoning a lease -/

def abandonLease (outcome : LeaseOutcome) (now : Int) (lease : OperationLease) : OperationLease :=
  { lease with
    state := .abandoned
    revision := u64Succ lease.revision
    terminalAtEpoch := some now
    reconcileObservedAtEpoch := none
    outcome := some outcome }

def OperationLease.isSnapshot (snapshot lease : OperationLease) : Bool :=
  lease.isNamed snapshot.sessionId snapshot.sessionIncarnation snapshot.leaseId &&
    lease.revision = snapshot.revision && lease.nonterminal

def abandonExactOperation (snapshot : OperationLease) (now : Int)
    (outcome : LeaseOutcome) : Except CliError (Registry × OperationLease) := do
  let lease ← orErr (registry.operations.find? snapshot.isSnapshot)
    (revisionConflict "operation-revision-conflict")
  pure ({ registry with
    operations := updateFirst snapshot.isSnapshot (abandonLease outcome now) registry.operations },
    publicLease (abandonLease outcome now lease))

def exactNonterminalOperationSnapshot (leaseId : String) (ifRevision : Nat) :
    Except CliError OperationLease := do
  let snapshot ← orErr
    (registry.operations.find? fun lease => lease.isNamed sessionId sessionIncarnation leaseId)
    operationUnavailable
  ensure (snapshot.revision = ifRevision ∧ snapshot.nonterminal)
    (revisionConflict "operation-revision-conflict")
  pure snapshot

/-- `operator_reconcile_in_registry`. -/
def operatorReconcile (record : SessionRecord) (leaseId : String) (ifRevision : Nat) (now : Int) :
    Except CliError (Registry × OperationLease) := do
  let current ← incarnation record
  let snapshot ← exactNonterminalOperationSnapshot registry record.id current leaseId ifRevision
  ensure (controllerObservedQuiescent env record snapshot)
    (.dataErr "operation-still-running"
      "operator reconciliation could not prove the operation inactive")
  abandonExactOperation registry snapshot now .operatorAttestedInactive

structure OperatorReconcileEvidence where
  runtimeIdentityMatches : Bool
  controllerQuiescent : Bool

/-- `operator_attested_transition_in_registry`. -/
def operatorAttestedTransition (leaseId : String) (ifRevision : Nat) (now : Int)
    (evidence : OperatorReconcileEvidence) : Except CliError (Registry × OperationLease) := do
  let snapshot ←
    exactNonterminalOperationSnapshot registry sessionId sessionIncarnation leaseId ifRevision
  ensure (¬ snapshot.descendant.any fun descendant => env.descendantStatus descendant ≠ .stopped)
    (.dataErr "operation-still-running"
      "operator reconciliation could not prove the exact operation descendant stopped")
  ensure (evidence.runtimeIdentityMatches ∧ evidence.controllerQuiescent)
    (.dataErr "operation-still-running"
      "operator reconciliation could not prove the exact operation inactive")
  abandonExactOperation registry snapshot now .operatorAttestedInactive

/-- The exact runtime of the lease still runs. -/
def runtimeUnchanged (record : SessionRecord) (lease : OperationLease) : Bool :=
  (env.runtimeEvidence record).any fun runtime =>
    runtime.status = .running && lease.runtimeIdentityDigest ≠ "" &&
      runtime.identityDigest = lease.runtimeIdentityDigest

def reclaimLease (now : Int) (registry : Registry) (lease : OperationLease) : Registry :=
  match env.loadSessionRecord lease.sessionId with
  | none => registry
  | some record =>
    if incarnation record ≠ .ok lease.sessionIncarnation then registry
    else
      match drainCompletionEventsForLease codec registry lease.sessionId lease.sessionIncarnation
          lease.leaseId now with
      | .error _ => registry
      | .ok (registry, drained) =>
        if drained ≠ 0 then registry
        else if !runtimeUnchanged env record lease ||
            !controllerObservedQuiescent env record lease then registry
        else
          match abandonExactOperation registry lease now .ttlExpiredInactive with
          | .ok (registry, _) => registry
          | .error _ => registry

def reclaimExpiredInactiveOperations (now : Int) (registry : Registry) : Registry :=
  (registry.operations.filter fun lease =>
    lease.nonterminal && lease.expiresAtEpoch ≤ now).foldl (reclaimLease codec env now) registry

end NilsCli.Coordination
