import NilsCli.Coordination.Notification
import NilsCli.Coordination.Leases

/-!
# Locking and cleaning the registry (`mod.rs`)

Every critical section starts with `lockRegistry`, the full maintenance of the registry: it
normalizes the wake-up receipts, renews the claims and leases of live sessions, applies the
mailbox retention, prunes brokers and reclaims expired leases.
-/

namespace NilsCli.Coordination

open Lib

variable (env : Env) (now : Int) (registry : Registry) (brokers : Table String BrokerRecord)

/-! ## Mailbox retention -/

def terminalRetentionSecs : Int := 5 * 60

def acknowledgedMessageRetentionSecs : Int := 24 * 60 * 60

def maxTerminalMessages : Nat := 1024

def maxTerminalBytes : Nat := 4 * 1024 * 1024

/-- `mailbox_quota::prune`. -/
def pruneQuotaRejections : Registry :=
  { registry with
    quotaRejections := registry.quotaRejections.filter fun event =>
      event.occurredAtEpoch > i64Sub now (24 * 60 * 60) }

/-- A message whose time is over expires; a terminal message gets the time it became so. -/
def expireMessage (message : StoredMessage) : StoredMessage :=
  if !message.state.terminal && message.expiresAtEpoch ≤ now then
    { message with
      state := .expired
      revision := u64Succ message.revision
      terminalAtEpoch := some now }
  else if message.state.terminal && message.terminalAtEpoch.isNone then
    { message with terminalAtEpoch := some now }
  else message

def retentionOver (message : StoredMessage) : Bool :=
  message.terminalAtEpoch.any fun terminal =>
    terminal ≤ i64Sub now (if message.state = .acknowledged then acknowledgedMessageRetentionSecs
      else terminalRetentionSecs)

def targetRetained (messages : List StoredMessage) (receipt : NotificationReceipt) : Bool :=
  messages.any fun message =>
    message.addressedTo receipt.targetSessionId receipt.targetIncarnation

/-- The receipt is keyed by one of these message ids, as an older release keyed it. -/
def NotificationKey.names (key : NotificationKey) (ids : List String) : Bool :=
  match key with
  | .message id => id ∈ ids
  | .recipient _ _ => false

def terminalHistory (messages : List StoredMessage) : List StoredMessage :=
  sortBy (fun a b =>
      a.terminalAtEpoch.getD 0 < b.terminalAtEpoch.getD 0 ||
        (a.terminalAtEpoch.getD 0 = b.terminalAtEpoch.getD 0 && (textLt a.messageId b.messageId ||
          (a.messageId = b.messageId && a.bodyBytes ≤ b.bodyBytes))))
    (messages.filter fun message => message.state.terminal)

/-- The ids to drop until the history of `count` messages and `bytes` is within its bounds. -/
def compactionPlan : Nat → Nat → List StoredMessage → List String
  | _, _, [] => []
  | count, bytes, message :: rest =>
    if count ≤ maxTerminalMessages ∧ bytes ≤ maxTerminalBytes then []
    else message.messageId :: compactionPlan (count - 1) (bytes - message.bodyBytes) rest

def compactTerminalRecords : Registry :=
  let terminal := terminalHistory registry.messages
  let evicted := compactionPlan terminal.length (terminal.map (·.bodyBytes)).sum terminal
  let messages := registry.messages.filter fun message => message.messageId ∉ evicted
  { registry with
    messages := messages
    notifications := Table.filter (fun _ receipt => targetRetained messages receipt)
      registry.notifications }

def compactTerminalRecordsChanged : Bool :=
  let terminal := terminalHistory registry.messages
  !(compactionPlan terminal.length (terminal.map (·.bodyBytes)).sum terminal).isEmpty

/-- `maintain_retention`, before the compaction. -/
def dropTimedOut : Registry :=
  let registry := pruneQuotaRejections now registry
  let messages := registry.messages.map (expireMessage now)
  let removed := (messages.filter (retentionOver now)).map (·.messageId)
  let messages := messages.filter fun message => message.messageId ∉ removed
  { registry with
    messages := messages
    notifications := Table.filter (fun key receipt =>
      !key.names removed && (quotaPending now receipt || targetRetained messages receipt))
      registry.notifications
    receipts := Table.filter (fun _ receipt => decide (receipt.expiresAtEpoch > now))
      registry.receipts }

def maintainRetention : Registry :=
  compactTerminalRecords (dropTimedOut now registry)

/-- `expireMessage` changes the message. -/
def expiresMessage (message : StoredMessage) : Bool :=
  (!message.state.terminal && message.expiresAtEpoch ≤ now) ||
    (message.state.terminal && message.terminalAtEpoch.isNone)

def maintainRetentionChanged : Bool :=
  let pruned := pruneQuotaRejections now registry
  let kept := maintainRetention now registry
  pruned.quotaRejections.length ≠ registry.quotaRejections.length ||
    registry.messages.any (expiresMessage now) ||
    compactTerminalRecordsChanged (dropTimedOut now registry) ||
    kept.messages.length ≠ registry.messages.length ||
    kept.notifications.size ≠ registry.notifications.size ||
    kept.receipts.size ≠ registry.receipts.size

def stoppedBrokerRetentionSecs : Int := 24 * 60 * 60

def fifteenMinutes : Int := 15 * 60

def thirtyMinutes : Int := 30 * 60

def capabilityAvailable (sessionId incarnation : String) (expected : Option TextDigest) : Bool :=
  expected.any fun expected =>
    (env.capabilityToken sessionId incarnation).any fun token => expected = digestBytes token

/-- The broker of the session is this incarnation, ready, authorized and beating. -/
def brokerLive (sessionId incarnation : String) : Bool :=
  (brokers.lookup sessionId).any fun broker =>
    broker.incarnation = incarnation && broker.state = .ready &&
      capabilityAvailable env sessionId incarnation broker.capabilityDigest &&
      env.heartbeatFresh sessionId incarnation

/-- Maintenance renewal of a claim. -/
def renewClaim (now : Int) (claim : WorkContextRecord) : WorkContextRecord :=
  if claim.state ≠ .active ∨ claim.expiresAtEpoch > i64Add now fifteenMinutes then claim
  else if brokerLive env brokers claim.sessionId claim.sessionIncarnation ∧
      (env.loadSessionRecord claim.sessionId).isSome then
    { claim with expiresAtEpoch := i64Add now thirtyMinutes }
  else claim

/-- The runtime of the lease runs and its own turn is working or its descendant is live. -/
def leaseRunning (lease : OperationLease) : Bool :=
  (env.loadSessionRecord lease.sessionId).any fun record =>
    ((env.runtimeEvidence record).any fun runtime =>
      runtime.status = .running && runtime.identityDigest = lease.runtimeIdentityDigest) &&
    (((env.controllerState record).any fun activity =>
      activity.phase = .working &&
        activityIdentityDigest activity = lease.activityIdentityDigest) ||
      lease.descendant.any (descendantIsLive env))

/-- Maintenance renewal takes this lease. -/
def leaseRenewable (now : Int) (lease : OperationLease) : Bool :=
  lease.nonterminal && lease.expiresAtEpoch ≤ i64Add now fifteenMinutes &&
    brokerLive env brokers lease.sessionId lease.sessionIncarnation && leaseRunning env lease

def renewLease (now : Int) (lease : OperationLease) : OperationLease :=
  if leaseRenewable env brokers now lease then
    { lease with
      state := .active
      reconcileObservedAtEpoch := none
      expiresAtEpoch := i64Add now thirtyMinutes }
  else lease

def holdsWork (sessionId incarnation : String) : Bool :=
  (registry.claims.any fun claim =>
    claim.sessionId = sessionId && claim.sessionIncarnation = incarnation &&
      claim.state = .active) ||
  registry.operations.any fun operation =>
    operation.sessionId = sessionId && operation.sessionIncarnation = incarnation &&
      operation.nonterminal

def pruneStaleStoppedBrokers : Registry :=
  { registry with
    brokers := Table.filter (fun sessionId broker =>
      !(broker.state = .stopped && broker.capabilityDigest.isNone &&
        broker.heartbeatEpoch ≤ i64Sub now stoppedBrokerRetentionSecs &&
        !holdsWork registry sessionId broker.incarnation &&
        env.sessionDirMissing sessionId)) registry.brokers }

variable (codec : Codec)

variable (env : Env) (brokers : Table String BrokerRecord) (registry : Registry)

/-- `lock_registry_within` with full maintenance. -/
def lockRegistry : Registry :=
  let now := env.lockNow
  let registry := normalizeRegistry codec now registry
  let registry := { registry with
    claims := registry.claims.map (renewClaim env registry.brokers now) }
  let registry := maintainRetention now registry
  let registry := pruneStaleStoppedBrokers env now registry
  let registry := { registry with
    operations := registry.operations.map (renewLease env registry.brokers now) }
  reclaimExpiredInactiveOperations codec env now registry

/-- Expiry of a lease: `active` fails closed to `completing`, at the next revision. -/
def expireLease (now : Int) (lease : OperationLease) : OperationLease :=
  if lease.state = .active ∧ lease.expiresAtEpoch ≤ now then
    { lease with state := .completing, revision := u64Succ lease.revision }
  else if ¬ lease.nonterminal ∧ lease.terminalAtEpoch = none then
    { lease with terminalAtEpoch := some now }
  else lease

/-- A nonterminal lease is bound to the claim. -/
def hasNonterminalOperation (operations : List OperationLease) (claimId : String) : Bool :=
  operations.any fun operation => operation.claimId = claimId && operation.nonterminal

def ownerRuntimeStopped (sessionId incarnation : String) : Bool :=
  ((brokers.lookup sessionId).filter fun broker => broker.incarnation = incarnation).any
    fun broker => broker.runtimeIdentity.any fun identity =>
      env.runtimeStatusForIdentity identity = .stopped

def expireClaim (operations : List OperationLease) (now : Int) (claim : WorkContextRecord) :
    WorkContextRecord :=
  if claim.state = .active ∧ claim.expiresAtEpoch ≤ now ∧
      ¬ hasNonterminalOperation operations claim.claimId ∧
      ownerRuntimeStopped env brokers claim.sessionId claim.sessionIncarnation then
    { claim with
      state := .expired
      revision := u64Succ claim.revision
      terminalAtEpoch := some now }
  else if claim.state ≠ .active ∧ claim.terminalAtEpoch = none then
    { claim with terminalAtEpoch := some now }
  else claim

/-- `expireLease` changes the lease. -/
def expiresLease (now : Int) (lease : OperationLease) : Bool :=
  (lease.state = .active && lease.expiresAtEpoch ≤ now) ||
    (!lease.nonterminal && lease.terminalAtEpoch.isNone)

/-- `expireClaim` changes the claim. -/
def expiresClaim
    (operations : List OperationLease) (now : Int) (claim : WorkContextRecord) : Bool :=
  (claim.state = .active && claim.expiresAtEpoch ≤ now &&
    !hasNonterminalOperation operations claim.claimId &&
    ownerRuntimeStopped env brokers claim.sessionId claim.sessionIncarnation) ||
    (claim.state ≠ .active && claim.terminalAtEpoch.isNone)

def terminalRetained (now : Int) (terminalAtEpoch : Option Int) : Bool :=
  terminalAtEpoch.all fun terminal => terminal > i64Sub now terminalRetentionSecs

def eventRetained (operations : List OperationLease) (now : Int) (event : CompletionEvent) :
    Bool :=
  event.createdAtEpoch > i64Sub now receiptTtlSecs &&
    operations.any fun operation => operation.leaseId = event.leaseId && operation.nonterminal

def cleanExpired (now : Int) (registry : Registry) : Registry :=
  let registry := { registry with operations := registry.operations.map (expireLease now) }
  let registry := { registry with
    claims := registry.claims.map (expireClaim env registry.brokers registry.operations now) }
  let registry := maintainRetention now registry
  let operations := registry.operations.filter fun operation =>
    terminalRetained now operation.terminalAtEpoch
  { registry with
    operations := operations
    claims := registry.claims.filter fun claim => terminalRetained now claim.terminalAtEpoch
    cursors := Table.filter (fun _ cursor => decide (cursor.expiresAtEpoch > now)) registry.cursors
    advisoryAcknowledgements := Table.filter (fun _ advisory => decide (advisory.epoch > now))
      registry.advisoryAcknowledgements
    advisoryObservations := Table.filter (fun _ advisory =>
      decide (advisory.epoch > i64Sub now receiptTtlSecs)) registry.advisoryObservations
    completionEvents := registry.completionEvents.filter (eventRetained operations now) }

def cleanExpiredChanged (now : Int) (registry : Registry) : Bool :=
  let expired := { registry with operations := registry.operations.map (expireLease now) }
  let expired := { expired with
    claims := expired.claims.map (expireClaim env expired.brokers expired.operations now) }
  let cleaned := cleanExpired env now registry
  registry.operations.any (expiresLease now) ||
    registry.claims.any (expiresClaim env registry.brokers expired.operations now) ||
    maintainRetentionChanged now expired ||
    cleaned.operations.length ≠ expired.operations.length ||
    cleaned.claims.length ≠ expired.claims.length ||
    cleaned.cursors.size ≠ expired.cursors.size ||
    cleaned.advisoryAcknowledgements.size ≠ expired.advisoryAcknowledgements.size ||
    cleaned.advisoryObservations.size ≠ expired.advisoryObservations.size ||
    cleaned.completionEvents.length ≠ expired.completionEvents.length

/-! ## Guards of the sections -/

def ensureCurrentBroker (sessionId incarnation : String) : Except CliError Unit := do
  let broker ← orErr (registry.brokers.lookup sessionId)
    (.runtimeErr "coordination-unavailable" "coordination broker is unavailable")
  ensure (broker.incarnation = incarnation)
    (.dataErr "session-incarnation-conflict" "session incarnation was replaced")
  ensure (broker.state = .ready)
    (.runtimeErr "coordination-broker-lost" "coordination broker is not ready")
  ensure (capabilityAvailable env sessionId incarnation broker.capabilityDigest)
    (.runtimeErr "coordination-broker-lost" "coordination broker capability is unavailable")
  ensure (env.heartbeatFresh sessionId incarnation)
    (.runtimeErr "coordination-broker-lost" "coordination broker heartbeat is stale")

def ensureCurrentBrokerCapability
    (sessionId incarnation : String) (capability : TextDigest) : Except CliError Unit := do
  ensureCurrentBroker env registry sessionId incarnation
  let broker ← orErr (registry.brokers.lookup sessionId) unauthorized
  ensure (broker.capabilityDigest = some capability) unauthorized

def ensureNotificationSubmissionNotInProgress
    (sessionId incarnation : String) : Except CliError Unit :=
  ensure (¬ submissionFencesSession registry sessionId incarnation)
    (.unavailableErr "coordination-notification-submission-in-progress"
      "claim, operation, or session lifecycle admission is fenced during exact notification submission")

end NilsCli.Coordination
