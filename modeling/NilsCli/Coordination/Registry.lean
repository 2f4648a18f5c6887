import NilsCli.Coordination.Types

/-!
# The registry and the world around it

`Registry` is the saved state. `Env` is what one critical section observes outside it: the
clock, the private files of the sessions, their runtimes and controllers, and the random id it
draws.
-/

namespace NilsCli.Coordination

open Lib

/-! ## Idempotency receipts -/

/-- The operations that store a receipt. -/
inductive Operation
  | workContextClaim
  | workContextRenew
  | workContextRelease
  | workContextAdmit
  | workContextComplete
  | workContextReconcile
  | operatorOperationReconcile
  | brokerAdopt
  | brokerReconcile
  | brokerRetireStopped
  | messageSend
  | messageReply
  | messageForward
  | messageAck
  | messageReceive
  | serviceMessageSubmit
  deriving DecidableEq

inductive RequestDigest
  | claim (candidate : WorkContextInput) (ifRevision : Option Nat)
  | claimRevision (claim : String) (ifRevision : Nat)
  | admission (claim : String) (ifRevision : Nat) (operation : String) (targets : List Scope)
      (providerTargets : List ProviderRef) (pullRequests : List PullRequestTarget)
      (checkouts : List CheckoutBinding) (descendant : Option DescendantIdentity)
      (executionTokenDigest : TextDigest)
  | complete (lease : String) (ifRevision : Nat) (executionTokenDigest : TextDigest)
      (outcome : CompletionOutcome)
  | reconcile (lease : String) (ifRevision : Nat) (executionToken : String)
      (outcome : CompletionOutcome)
  | operatorReconcile (session incarnation : String) (generation : Nat) (lease : String)
      (ifRevision : Nat)
  | recovery (incarnation : String) (generation : Nat) (lease : Option (String × Nat))
  | retire (session incarnation : String) (generation staleAfter : Nat)
  | send (sender recipient : String) (body : TextDigest) (replyTo : Option String)
      (expirySecs : Int) (ifRevision : Option Nat) (replyBySecs : Option Int)
      (category : Option MessageCategory)
  | reply (sender replyTo : String) (body : TextDigest) (ifRevision : Nat)
      (category : Option MessageCategory)
  | forward (message : String) (ifRevision : Nat) (categories : List MessageCategory)
      (recipient machine : String)
  | ack (message : String) (ifRevision : Nat)
  | receive (envelope : Envelope)
  | serviceSubmit (recipient : String) (body : TextDigest) (category : Option MessageCategory)
  deriving DecidableEq

/-- The key of a receipt: the digest of principal, incarnation, operation and request key. -/
structure ReceiptKey where
  principal : String
  incarnation : String
  operation : Operation
  key : String
  deriving DecidableEq

structure MessageMetadata where
  category : MessageCategory
  notificationSuppressed : Bool
  forwarding : Option Provenance
  /-- The count and the time of resume carries. -/
  resumeCarry : Option (Nat × Int)
  messageId : String
  sender : SenderId
  /-- Shown of a federated session or a service only. -/
  senderIncarnation : Option String
  recipientSessionId : String
  state : MessageState
  revision : Nat
  replyTo : Option String
  replyByEpoch : Option Int
  createdAtEpoch : Int
  expiresAtEpoch : Int
  bodyBytes : Nat
  deriving DecidableEq

structure DeliveryReceipt where
  messageId : String
  recipient : Address
  persistedAtEpoch : Int
  notificationSuppressed : Bool
  deriving DecidableEq

/-- What a request returns and its receipt stores. -/
inductive Outcome
  | context (claim : WorkContextRecord)
  | claimResult (claim : WorkContextRecord) (evaluation : ConflictEvaluation)
  | setResult (changed : Bool) (claim : WorkContextRecord) (evaluation : ConflictEvaluation)
  | cleared (claim : Option String)
  | lease (lease : OperationLease)
  | recovery (session : String) (generation : Nat) (reconciliation : Option OperationLease)
  | retirement (session incarnation : String) (generation : Nat) (retiredAtEpoch : Int)
  | message (metadata : MessageMetadata) (notification : Option NotificationProjection)
  | delivery (receipt : DeliveryReceipt)
  | inbox (messages : List MessageMetadata) (nextCursor : Option String)
  | reminder (generation : Option Nat)
  | flag (changed : Bool)
  | drained (count : Nat)
  | unit
  deriving DecidableEq

def Outcome.messageId? : Outcome → Option String
  | .message metadata _ => some metadata.messageId
  | .delivery receipt => some receipt.messageId
  | _ => none

structure IdempotencyReceipt where
  principal : String
  incarnation : String
  operation : Operation
  digest : RequestDigest
  outcome : Outcome
  expiresAtEpoch : Int
  deriving DecidableEq

/-- The eviction record of a principal (`receipt_retention.rs`). -/
structure ReceiptEviction where
  evicted : Nat
  lastEvictedAtEpoch : Int

/-! ## Completion events and brokers -/

/-- The id of a completion event: the digest of session, incarnation, lease and key. -/
structure EventId where
  sessionId : String
  sessionIncarnation : String
  leaseId : String
  idempotencyKey : String
  deriving DecidableEq

structure CompletionEvent where
  eventId : EventId
  sessionId : String
  sessionIncarnation : String
  leaseId : String
  ifRevision : Nat
  executionTokenDigest : TextDigest
  outcome : CompletionOutcome
  idempotencyKey : String
  requestDigest : RequestDigest
  createdAtEpoch : Int

inductive BrokerState
  | ready
  | stopped
  | recovering
  | degraded
  | starting
  deriving DecidableEq

structure BrokerRecord where
  sessionId : String
  incarnation : String
  /-- `none` is the empty digest of a revoked capability. -/
  capabilityDigest : Option TextDigest
  generation : Nat
  state : BrokerState
  heartbeatEpoch : Int
  runtimeIdentity : Option String
  runtimeIdentityDigest : String
  lostSinceEpoch : Option Int

/-- The position of a reader in its inbox (`mailbox::InboxCursor`). -/
structure InboxCursor where
  recipientSessionId : String
  recipientIncarnation : String
  state : Option MessageState
  categories : List MessageCategory
  afterCreatedAtEpoch : Int
  afterMessageId : String
  expiresAtEpoch : Int

/-- An advisory acknowledgement with its `expires_at_epoch`, or an observation with its
`observed_at_epoch`. -/
structure Advisory where
  sessionIncarnation : String
  epoch : Int

/-- The saved registry. -/
structure Registry where
  fingerprintEpoch : Nat
  fingerprintKey : String
  brokers : Table String BrokerRecord
  claims : List WorkContextRecord
  operations : List OperationLease
  completionEvents : List CompletionEvent
  messages : List StoredMessage
  quotaRejections : List QuotaRejection
  cursors : Table String InboxCursor
  receipts : Table ReceiptKey IdempotencyReceipt
  receiptEvictions : Table String ReceiptEviction
  notifications : Table NotificationKey NotificationReceipt
  advisoryAcknowledgements : Table String Advisory
  advisoryObservations : Table String Advisory

/-- The registry of a host that has none: `Registry::default()`. -/
def Registry.empty : Registry where
  fingerprintEpoch := 0
  fingerprintKey := ""
  brokers := ∅
  claims := []
  operations := []
  completionEvents := []
  messages := []
  quotaRejections := []
  cursors := ∅
  receipts := ∅
  receiptEvictions := ∅
  notifications := ∅
  advisoryAcknowledgements := ∅
  advisoryObservations := ∅

/-! ## The observed world -/

structure SessionRuntime where
  launchId : String
  generation : Nat

structure SessionRecord where
  id : String
  id_ne : id ≠ ""
  agent : String
  createdAt : String
  /-- `created_at` parsed: milliseconds since the epoch, if it is a timestamp. -/
  createdAtMillis : Option Int
  cwd : String
  runtime : Option SessionRuntime

inductive RuntimeStatus
  | running
  | stopped
  | unknown
  deriving DecidableEq

structure RuntimeEvidence where
  status : RuntimeStatus
  identity : String
  identityDigest : String

inductive TurnPhase
  | starting
  | working
  | waiting
  | needsInput
  | unresponsive
  | unknown
  deriving DecidableEq

structure CurrentTurn where
  providerTurnId : Option String
  startedAt : String

structure LastTurn where
  providerTurnId : Option String
  completedAt : String

/-- The controller-owned activity of a session (`activity.rs`). -/
structure TurnState where
  phase : TurnPhase
  revision : Nat
  semanticEvent : Option String
  diagnostic : Option String
  currentTurn : Option CurrentTurn
  lastTurn : Option LastTurn

inductive DescendantStatus
  | live
  | stopped
  | unknown
  deriving DecidableEq

/-- One entry of the sessions directory; `none` where its type or name cannot be read. -/
structure DirEntry where
  isDir : Option Bool
  name : Option String

structure Env where
  /-- `now_epoch()` inside `lock_registry_within`, in the body, and in `idempotency_replay`. -/
  lockNow : Int
  now : Int
  replayNow : Int
  nowMillis : Int
  /-- `uuid::Uuid::new_v4()`. -/
  uuid : String
  /-- The trimmed text of the capability file of a session and incarnation. -/
  capabilityToken : String → String → Option String
  heartbeatFresh : String → String → Bool
  /-- The heartbeat of a session and incarnation is at least this many seconds old. -/
  heartbeatStale : String → String → Int → Nat → Bool
  loadSessionRecord : String → Option SessionRecord
  runtimeEvidence : SessionRecord → Option RuntimeEvidence
  runtimeStatusForIdentity : String → RuntimeStatus
  /-- `activity::controller_state_for_record` and `activity::state_for_view`. -/
  controllerState : SessionRecord → Option TurnState
  stateForView : SessionRecord → Option TurnState
  descendantStatus : DescendantIdentity → DescendantStatus
  sessionDirMissing : String → Bool
  /-- The entries of the sessions directory, if it can be read. -/
  sessionEntries : Option (List DirEntry)
  /-- `worktree_fingerprint` of a fingerprint epoch and key and a working directory. -/
  worktreeFingerprint : Nat → String → String → Option String
  /-- A new fingerprint key. -/
  freshKey : String
  /-- `validate_physical_targets` of a working directory, targets and checkouts. -/
  physicalTargetsValid : String → List Scope → List CheckoutBinding → Bool
  /-- The identity of this machine. -/
  machine : String
  /-- `revalidate_capability_file` of a session and incarnation. -/
  capabilityRevalidated : String → String → Bool
  /-- The destination policy: suppressed, routine interval, alert percent; `none` if invalid. -/
  notificationPolicy : String → MessageCategory → Option (Bool × Int × Nat)
  /-- `notice::writers_enabled()`. -/
  noticeWritersEnabled : Bool

/-- The sizes and texts that the JSON encoding gives to records. -/
structure Codec where
  receiptBytes : IdempotencyReceipt → Nat
  contextBytes : WorkContextRecord → Nat
  receiptKeyText : ReceiptKey → String
  /-- The text of a service's stored id, `service:` and its machine and id. -/
  servicePrincipal : ServiceAddress → String
  compatibilityIdText : CompatibilityId → String
  /-- `uuid::Uuid::parse_str` accepts the text. -/
  isUuid : String → Bool
  /-- `notice::parse_notice` finds a mailbox wake or alert. -/
  isMailboxReminderPrompt : String → Bool
  fixedPrompt : String
  quotaAlertNotice : String
  unreadPrompt : Nat → String
  explainedSummary : List StoredMessage → String

end NilsCli.Coordination
