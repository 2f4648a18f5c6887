import NilsCli.Coordination.Claims
import NilsCli.Coordination.Mailbox

/-!
# Broker lifecycle (`broker.rs`, `retirement.rs`)

A session has one broker, bound to one incarnation. `provision` replaces the broker of a stopped
predecessor and ends the predecessor's work; `revoke` and `retire` stop a broker and end its own.
-/

namespace NilsCli.Coordination

open Lib

variable (sessionId : String)

def brokerUnavailable : CliError :=
  .runtimeErr "coordination-broker-lost" "coordination broker is unavailable"

def replacementGraceSecs : Int := 10 * 60

/-! ## Ending the work of an incarnation -/

/-- The claim ends if it is an active claim of the session in an incarnation that `ends`. -/
def endClaim (ends : String → Bool) (now : Int) (claim : WorkContextRecord) : WorkContextRecord :=
  if claim.sessionId = sessionId ∧ ends claim.sessionIncarnation ∧ claim.state = .active then
    releaseClaim now claim
  else claim

/-- A lease abandoned with its incarnation. -/
def supersedeLease (now : Int) (lease : OperationLease) : OperationLease :=
  { lease with
    state := .abandoned
    revision := u64Succ lease.revision
    terminalAtEpoch := some now }

def endLease (ends : String → Bool) (now : Int) (lease : OperationLease) : OperationLease :=
  if lease.sessionId = sessionId ∧ ends lease.sessionIncarnation ∧ lease.nonterminal then
    supersedeLease now lease
  else lease

/-- The claims and leases of the session in the incarnations that `ends` are ended. -/
def endWork (ends : String → Bool) (now : Int) (registry : Registry) : Registry :=
  { registry with
    claims := registry.claims.map (endClaim sessionId ends now)
    operations := registry.operations.map (endLease sessionId ends now) }

/-- A stopped broker without a capability. -/
def stopBroker (now : Int) (broker : BrokerRecord) : BrokerRecord :=
  { broker with state := .stopped, heartbeatEpoch := now, capabilityDigest := none }

/-! ## Provisioning -/

structure PreviousRuntime where
  record : SessionRecord
  status : RuntimeStatus
  storedStatus : RuntimeStatus

structure ProvisionArgs where
  record : SessionRecord
  prior : Option PreviousRuntime
  /-- The capability token that is drawn. -/
  token : String
  /-- The capability and checkpoint files could be written. -/
  filesWritten : Bool

def previousBroker (registry : Registry) (sessionId incarnation : String) : Option BrokerRecord :=
  (registry.brokers.lookup sessionId).filter fun broker => broker.incarnation ≠ incarnation

def storedProcessRuntimeStatus (prior : PreviousRuntime) (expectedIncarnation : String) :
    RuntimeStatus :=
  if incarnation prior.record = .ok expectedIncarnation then prior.storedStatus else .unknown

def previousRuntimeStatus (env : Env) (args : ProvisionArgs) (previous : BrokerRecord) :
    RuntimeStatus :=
  match previous.runtimeIdentity with
  | some identity => env.runtimeStatusForIdentity identity
  | none =>
    match args.prior.filter fun prior => prior.record.id = args.record.id &&
        prior.record.runtime.any fun runtime => runtime.generation = previous.generation with
    | none => .unknown
    | some prior =>
      match storedProcessRuntimeStatus prior previous.incarnation with
      | .stopped => prior.status
      | status => status

def nonterminalLeases (registry : Registry) (sessionId : String) (p : String → Bool) :
    List OperationLease :=
  registry.operations.filter fun lease =>
    lease.sessionId = sessionId && p lease.sessionIncarnation && lease.nonterminal

def setLostSince (lostSince : Option Int) (registry : Registry) : Registry :=
  { registry with
    brokers := Table.modify sessionId
      (fun broker => { broker with lostSinceEpoch := lostSince }) registry.brokers }

/-- The guard of `provision` against a live predecessor, with the registry it saves. -/
def replacementGuard (env : Env) (args : ProvisionArgs) (previous : BrokerRecord)
    (registry : Registry) : Registry × Except CliError Unit :=
  let now := env.now
  let sessionId := args.record.id
  let status := previousRuntimeStatus env args previous
  if env.heartbeatFresh sessionId previous.incarnation || status = .running then
    (if previous.lostSinceEpoch.isSome then setLostSince sessionId none registry else registry,
      .error (.dataErr "session-incarnation-conflict"
        "the prior coordination incarnation is still live"))
  else if status = .unknown then
    (registry, .error (.runtimeErr "coordination-runtime-unverified"
      "the prior coordination runtime identity cannot be proven stopped"))
  else
    let prior := nonterminalLeases registry sessionId (· = previous.incarnation)
    if prior = [] then (registry, .ok ())
    else if prior.any fun lease => lease.expiresAtEpoch > now then
      (registry, .error (.dataErr "operation-in-progress"
        "an unexpired operation remains bound to the prior incarnation"))
    else
      let lostSince := previous.lostSinceEpoch.getD now
      let registry := if previous.lostSinceEpoch.isNone then
          setLostSince sessionId (some now) registry
        else registry
      if lostSince > i64Sub now replacementGraceSecs then
        (registry, .error (.dataErr "broker-replacement-grace"
          "expired prior operations require ten minutes of continuously stopped runtime evidence"))
      else (registry, .ok ())

/-- What must be known of an earlier incarnation before its broker is replaced. -/
def provisionGuard (env : Env) (args : ProvisionArgs) (current : String) (registry : Registry) :
    Registry × Except CliError Unit :=
  match previousBroker registry args.record.id current with
  | some previous => replacementGuard env args previous registry
  | none =>
    if nonterminalLeases registry args.record.id (· ≠ current) = [] then (registry, .ok ())
    else (registry, .error (.dataErr "operation-in-progress"
      "an unresolved prior operation has no terminal runtime evidence"))

/-- The broker that `provision` records. -/
def newBroker (env : Env) (args : ProvisionArgs) (current : String) : BrokerRecord where
  sessionId := args.record.id
  incarnation := current
  capabilityDigest := some (digestBytes args.token)
  generation := (args.record.runtime.map (·.generation)).getD 0
  state := .ready
  heartbeatEpoch := 0
  runtimeIdentity := (env.runtimeEvidence args.record).map (·.identity)
  runtimeIdentityDigest := ((env.runtimeEvidence args.record).map (·.identityDigest)).getD ""
  lostSinceEpoch := none

variable (codec : Codec)

variable (env : Env) (args : RetireArgs) (registry : Registry)

/-- The new broker: the work of earlier incarnations ends, their unread mail may be carried over. -/
def replaceBroker (args : ProvisionArgs) (current : String)
    (previous : Option BrokerRecord) (registry : Registry) : Registry :=
  let now := env.now
  let registry := cleanExpired env now (ensureFingerprintKey env registry)
  let registry := endWork args.record.id (· ≠ current) now registry
  let registry := match previous with
    | some previous => carryUnreadAfterVerifiedResume codec env.machine registry args.record.id
        args.record.createdAtMillis previous.incarnation current now
    | none => registry
  { registry with brokers := registry.brokers.insert args.record.id (newBroker env args current) }

/-- `provision_with_previous`. -/
def provision (args : ProvisionArgs) (registry : Registry) : Registry × Except CliError Outcome :=
  match incarnation args.record with
  | .error error => (registry, .error error)
  | .ok current =>
    let previous := previousBroker registry args.record.id current
    match provisionGuard env args current registry with
    | (registry, .error error) => (registry, .error error)
    | (registry, .ok ()) =>
      if args.filesWritten then (replaceBroker codec env args current previous registry, .ok .unit)
      else (registry, .error brokerUnavailable)

/-! ## Revocation -/

def removeAdvisoryStateForIncarnation (sessionId incarnation : String) (registry : Registry) :
    Registry :=
  let removed := fun advisories : Table String Advisory => Table.filter (fun id advisory =>
    !(id = sessionId && advisory.sessionIncarnation = incarnation)) advisories
  { registry with
    advisoryAcknowledgements := removed registry.advisoryAcknowledgements
    advisoryObservations := removed registry.advisoryObservations }

/-- The broker of this incarnation stops, and its work ends. -/
def revoke (record : SessionRecord) (registry : Registry) : Registry :=
  match incarnation record with
  | .error _ => registry
  | .ok current =>
    removeAdvisoryStateForIncarnation record.id current
      (endWork record.id (· = current) env.now
        { registry with
          brokers := Table.modify record.id (fun broker =>
            if broker.incarnation = current then stopBroker env.now broker else broker)
            registry.brokers })

def forgetRevokedFailedLaunch (record : SessionRecord) (registry : Registry) :
    Except CliError (Registry × Outcome) := do
  let current ← incarnation record
  let removable := (registry.brokers.lookup record.id).any (fun broker =>
      broker.incarnation = current && broker.state = .stopped &&
        broker.capabilityDigest.isNone) && !holdsWork registry record.id current
  pure (if removable then { registry with brokers := registry.brokers.erase record.id }
    else registry, .unit)

/-- The first loss of contact is the one that is kept. -/
def markDegraded (sessionId incarnation : String) (generation : Nat)
    (registry : Registry) : Registry :=
  { registry with
    brokers := Table.modify sessionId (fun broker =>
      if broker.incarnation = incarnation ∧ broker.generation = generation then
        { broker with
          state := .degraded
          lostSinceEpoch := some (broker.lostSinceEpoch.getD env.now) }
      else broker) registry.brokers }

/-! ## Recovery -/

structure RecoverArgs where
  record : SessionRecord
  incarnation : String
  generation : Nat
  /-- The lease and revision that `broker-reconcile` names; `none` for `broker-adopt`. -/
  selector : Option (String × Nat)
  idempotencyKey : String

def RecoverArgs.operation (args : RecoverArgs) : Operation :=
  if args.selector.isSome then .brokerReconcile else .brokerAdopt

def RecoverArgs.receiptKey (args : RecoverArgs) : ReceiptKey :=
  ⟨args.record.id, args.incarnation, args.operation, args.idempotencyKey⟩

def RecoverArgs.digest (args : RecoverArgs) : RequestDigest :=
  .recovery args.incarnation args.generation args.selector

/-- The broker that a recovery names. -/
def RecoverArgs.names (args : RecoverArgs) (broker : BrokerRecord) : Bool :=
  broker.incarnation = args.incarnation && broker.generation = args.generation

/-- `recover`, its first section with a save: the lost broker becomes `recovering`. -/
def recoverBegin (args : RecoverArgs) (registry : Registry) :
    Except CliError (Registry × Outcome) := do
  match ← idempotencyReplay env registry args.receiptKey args.digest with
  | some replay => pure (registry, replay)
  | none =>
    let runtime ← orErr (env.runtimeEvidence args.record) brokerUnavailable
    ensure (runtime.status = .running)
      (.runtimeErr "coordination-runtime-unverified"
        "broker recovery requires the exact persisted runtime to be running")
    let broker ← orErr ((registry.brokers.lookup args.record.id).filter args.names)
      brokerUnavailable
    ensure (¬ brokerLive env registry.brokers args.record.id args.incarnation)
      (.dataErr "coordination-broker-not-lost" "the exact coordination broker is still healthy")
    ensure (broker.runtimeIdentityDigest = runtime.identityDigest ∧
        capabilityAvailable env args.record.id args.incarnation broker.capabilityDigest)
      (.runtimeErr "coordination-runtime-unverified"
        "recovery evidence does not match the persisted broker identity and capability")
    if broker.state = .recovering then pure (registry, .unit)
    else
      pure ({ registry with
        brokers := registry.brokers.insert args.record.id
          { broker with
            state := .recovering
            lostSinceEpoch := some (broker.lostSinceEpoch.getD env.now) } }, .unit)

def recoverCommit (args : RecoverArgs) (registry : Registry) :
    Except CliError (Registry × Outcome) := do
  let now := env.now
  match ← idempotencyReplay env registry args.receiptKey args.digest with
  | some replay => pure (registry, replay)
  | none =>
    let runtime ← orErr (env.runtimeEvidence args.record) brokerUnavailable
    let broker ← orErr ((registry.brokers.lookup args.record.id).filter fun broker =>
      args.names broker && broker.state = .recovering &&
        broker.runtimeIdentityDigest = runtime.identityDigest) brokerUnavailable
    let registry := { registry with
      brokers := registry.brokers.insert args.record.id
        { broker with state := .ready, heartbeatEpoch := now, lostSinceEpoch := none } }
    let (registry, reconciliation) ← match args.selector with
      | none => pure (registry, none)
      | some (lease, revision) => do
        let (registry, lease) ← operatorReconcile env registry args.record lease revision now
        pure (registry, some lease)
    let outcome : Outcome := .recovery args.record.id args.generation reconciliation
    let registry ← storeReceipt codec registry args.receiptKey args.digest outcome now
    pure (registry, outcome)

/-! ## Retirement -/

structure RetireArgs where
  record : SessionRecord
  incarnation : String
  generation : Nat
  staleAfter : Nat
  apply : Bool
  idempotencyKey : String
  /-- The probes of the kernel and of tmux, at the preview and again before the save: the exact
  runtime of this boot and its predecessors are absent. -/
  runtimeAbsent : Bool
  runtimeStillAbsent : Bool

def RetireArgs.receiptKey : ReceiptKey :=
  ⟨"operator-retirement:" ++ args.record.id, args.incarnation, .brokerRetireStopped,
    args.idempotencyKey⟩

def RetireArgs.digest : RequestDigest :=
  .retire args.record.id args.incarnation args.generation args.staleAfter

/-- The session record is the incarnation and generation that the operator names. -/
def RetireArgs.selectorMatches : Bool :=
  args.record.runtime.any fun runtime =>
    runtime.launchId = args.incarnation && runtime.generation = args.generation

/-- The broker is the one that the operator names. -/
def RetireArgs.brokerMatches (broker : BrokerRecord) : Bool :=
  broker.sessionId = args.record.id && broker.incarnation = args.incarnation &&
    broker.generation = args.generation

def operationsQuiescent (sessionId incarnation : String) : Bool :=
  !registry.operations.any fun lease =>
    lease.sessionId = sessionId && lease.sessionIncarnation = incarnation &&
      !(lease.state = .completed || lease.state = .abandoned)

def BrokerState.retirable : BrokerState → Bool
  | .ready | .degraded | .starting | .recovering => true
  | .stopped => false

/-- Every proof that `retire` requires. -/
def retireEligible : Bool :=
  args.selectorMatches &&
    (registry.brokers.lookup args.record.id).any (fun broker =>
      args.brokerMatches broker && broker.state.retirable &&
        ((env.runtimeEvidence args.record).any fun runtime =>
          broker.runtimeIdentity = some runtime.identity &&
            broker.runtimeIdentityDigest = runtime.identityDigest) &&
        env.heartbeatStale args.record.id args.incarnation broker.heartbeatEpoch
          args.staleAfter) &&
    args.runtimeAbsent && operationsQuiescent registry args.record.id args.incarnation &&
    !submissionFencesSession registry args.record.id args.incarnation

def retirementRefused : CliError :=
  .dataErr
    (if args.selectorMatches && (registry.brokers.lookup args.record.id).any args.brokerMatches
      then "coordination-retirement-refused" else "session-incarnation-conflict")
    "operator retirement requires every stopped-runtime proof to pass"

/-- The registry of a retired broker. -/
def retireBroker (now : Int) (sessionId incarnation : String) (registry : Registry) : Registry :=
  removeAdvisoryStateForIncarnation sessionId incarnation
    { registry with
      brokers := Table.modify sessionId (stopBroker now) registry.brokers
      claims := registry.claims.map (endClaim sessionId (· = incarnation) now) }

def retireReplay : Except CliError (Option Outcome) := do
  if args.selectorMatches && (registry.brokers.lookup args.record.id).any args.brokerMatches then
    match ← idempotencyReplay env registry args.receiptKey args.digest with
    | none => pure none
    | some receipt =>
      ensure ((registry.brokers.lookup args.record.id).any fun broker =>
          broker.state = .stopped && broker.capabilityDigest.isNone)
        (.dataErr "session-incarnation-conflict"
          "retired broker was replaced before receipt replay")
      pure (some receipt)
  else pure none

/-- `retire`, under the observational lock. -/
def retire (env : Env) (args : RetireArgs) (registry : Registry) :
    Except CliError (Registry × Outcome) := do
  let now := env.now
  validateIdempotencyKey args.idempotencyKey
  match ← retireReplay env args registry with
  | some replay => pure (registry, replay)
  | none =>
    let eligible := retireEligible env args registry
    if !args.apply then pure (registry, .flag eligible)
    else
      ensure eligible (retirementRefused args registry)
      ensure args.runtimeStillAbsent
        (.dataErr "coordination-retirement-refused"
          "stopped-runtime proof changed before retirement")
      let outcome : Outcome := .retirement args.record.id args.incarnation args.generation now
      let registry ← storeReceipt codec registry args.receiptKey args.digest outcome now
      pure (retireBroker now args.record.id args.incarnation registry, outcome)

end NilsCli.Coordination
