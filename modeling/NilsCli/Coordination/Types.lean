import NilsCli.Lib.Saturating
import NilsCli.Lib.Table

/-!
# The coordination registry

The data of `crates/agent-session/src/coordination`: one private registry file that every
session process of a host reads, changes and saves under one lock.
-/

namespace NilsCli.Coordination

open Lib

variable (code message : String)

/-! ## Errors -/

/-- The exit class of an error (`CliError::usage`, `data`, `runtime`, `unavailable`). -/
inductive ErrorKind
  | usage
  | data
  | runtime
  | unavailable
  deriving DecidableEq

/-- `CliError`, without its diagnostic JSON. -/
structure CliError where
  kind : ErrorKind
  code : String
  message : String
  deriving DecidableEq

namespace CliError

def usageErr : CliError := ⟨.usage, code, message⟩

def dataErr : CliError := ⟨.data, code, message⟩

def runtimeErr : CliError := ⟨.runtime, code, message⟩

def unavailableErr : CliError := ⟨.unavailable, code, message⟩

end CliError

/-- A SHA-256 digest of a text, kept as the text. -/
structure TextDigest where
  preimage : String
  deriving DecidableEq

def digestBytes (text : String) : TextDigest := ⟨text⟩

/-! ## Work contexts -/

inductive ScopeKind
  | repository
  | pathExact
  | pathPrefix
  deriving DecidableEq

structure Scope where
  kind : ScopeKind
  repository : String
  value : String
  deriving DecidableEq

structure ProviderRef where
  kind : String
  repository : String
  number : Nat
  deriving DecidableEq

structure PullRequestTarget where
  kind : String
  repository : String
  head : String
  deriving DecidableEq

structure CheckoutBinding where
  repository : String
  path : String
  deriving DecidableEq

structure WorkContextInput where
  schemaVersion : String
  intent : String
  tier : String
  repositories : List String
  worktrees : List String
  providerRefs : List ProviderRef
  planRefs : List String
  scopes : List Scope
  summary : String
  deriving DecidableEq

inductive ClaimState
  | active
  | released
  | expired
  | stale
  deriving DecidableEq

structure WorkContextRecord where
  schemaVersion : String
  sessionId : String
  sessionIncarnation : String
  claimId : String
  revision : Nat
  state : ClaimState
  intent : String
  tier : String
  repositories : List String
  worktrees : List String
  providerRefs : List ProviderRef
  planRefs : List String
  scopes : List Scope
  summary : String
  updatedAtEpoch : Int
  expiresAtEpoch : Int
  terminalAtEpoch : Option Int
  deriving DecidableEq

inductive ConflictClassification
  | conflict
  | potentialConflict
  | unknown
  | noKnownConflict
  | clear
  deriving DecidableEq

inductive ReasonCode
  | sameWorktree
  | sameProviderRef
  | sameRepositoryIncompleteScope
  | overlappingScope
  deriving DecidableEq

structure ConflictReason where
  code : ReasonCode
  peerSessionId : String
  repository : Option String
  deriving DecidableEq

structure PeerProjection where
  sessionId : String
  claimId : String
  intent : String
  tier : String
  repositories : List String
  providerRefs : List ProviderRef
  planRefs : List String
  scopes : List Scope
  summary : String
  expiresAtEpoch : Int
  deriving DecidableEq

structure ConflictEvaluation where
  classification : ConflictClassification
  complete : Bool
  reasons : List ConflictReason
  peers : List PeerProjection
  deriving DecidableEq

/-! ## Operation leases -/

structure DescendantIdentity where
  pid : Nat
  startTime : Nat
  deriving DecidableEq

inductive LeaseState
  | active
  | completing
  | reconcilePending
  | completed
  | failed
  | abandoned
  deriving DecidableEq

/-- `"active" | "completing" | "reconcile_pending"`: the operation may still be running. -/
def LeaseState.nonterminal : LeaseState → Bool
  | .active | .completing | .reconcilePending => true
  | .completed | .failed | .abandoned => false

inductive CompletionOutcome
  | pass
  | fail
  deriving DecidableEq

/-- What ended a lease (`OperationLease::outcome`). -/
inductive LeaseOutcome
  | completion (outcome : CompletionOutcome)
  | operatorAttestedInactive
  | ttlExpiredInactive
  deriving DecidableEq

structure OperationLease where
  leaseId : String
  sessionId : String
  sessionIncarnation : String
  claimId : String
  claimRevision : Nat
  operation : String
  targets : List Scope
  providerTargets : List ProviderRef
  pullRequestTargets : List PullRequestTarget
  state : LeaseState
  revision : Nat
  startedAtEpoch : Int
  expiresAtEpoch : Int
  terminalAtEpoch : Option Int
  executionTokenDigest : TextDigest
  activityRevision : Nat
  activityIdentityDigest : TextDigest
  runtimeIdentityDigest : String
  descendant : Option DescendantIdentity
  reconcileObservedAtEpoch : Option Int
  outcome : Option LeaseOutcome
  deriving DecidableEq

/-- The lease may still be running. -/
def OperationLease.nonterminal (lease : OperationLease) : Bool := lease.state.nonterminal

/-! ## Messages -/

inductive MessageCategory
  | uncategorized
  | progress
  | handoff
  | report
  | blocker
  | decision
  deriving DecidableEq

structure Address where
  machine : String
  sessionId : String
  sessionIncarnation : String
  deriving DecidableEq

structure ServiceAddress where
  machine : String
  serviceId : String
  serviceGeneration : String
  deriving DecidableEq

inductive Origin
  | session (address : Address)
  | service (address : ServiceAddress)
  deriving DecidableEq

/-- The stored sender of a message. -/
inductive SenderId
  | session (id : String)
  | remote (machine id : String)
  | service (machine id : String)
  deriving DecidableEq

structure RecipientTransfer where
  messageId : String
  sender : Address
  recipient : Address
  controller : Address
  sourceRevision : Nat
  transferredAtEpoch : Int
  deriving DecidableEq

structure Hop where
  sourceMessageId : String
  sourceRevision : Nat
  forwarder : Address
  recipient : Address
  forwardedAtEpoch : Int
  recipientTransfers : List RecipientTransfer
  deriving DecidableEq

/-- Forwarding provenance (`forwarding.rs`). -/
structure Provenance where
  attestation : String
  originalMessageId : String
  originalSender : Origin
  originalRecipient : Address
  originalCreatedAtEpoch : Int
  originalExpiresAtEpoch : Int
  bodySha256 : TextDigest
  hops : List Hop
  deriving DecidableEq

structure ResumeCarry where
  originalRecipientIncarnation : String
  fromIncarnation : String
  carryCount : Nat
  carriedAtEpoch : Int

/-- The states of a message. -/
inductive MessageState
  | unread
  | read
  | acknowledged
  | quarantined
  | expired
  | deleted
  deriving DecidableEq

/-- `"acknowledged" | "expired" | "deleted"`. -/
def MessageState.terminal : MessageState → Bool
  | .acknowledged | .expired | .deleted => true
  | .unread | .read | .quarantined => false

structure StoredMessage where
  messageId : String
  senderSessionId : SenderId
  senderIncarnation : String
  recipientSessionId : String
  recipientIncarnation : String
  state : MessageState
  revision : Nat
  replyTo : Option String
  replyByEpoch : Option Int
  replySentAtEpoch : Option Int
  replyDepth : Nat
  createdAtEpoch : Int
  remoteCreatedAtEpoch : Option Int
  createdAtEpochMillis : Int
  expiresAtEpoch : Int
  terminalAtEpoch : Option Int
  forwardedAtEpoch : Option Int
  category : Option MessageCategory
  notificationSuppressed : Bool
  forwarding : Option Provenance
  resumeCarry : Option ResumeCarry
  body : String

def StoredMessage.bodyBytes (message : StoredMessage) : Nat := message.body.utf8ByteSize

/-- A federated message on the wire (`remote.rs`). -/
structure Envelope where
  schemaVersion : String
  messageId : String
  sender : Origin
  recipient : Address
  body : String
  bodySha256 : TextDigest
  createdAtEpoch : Int
  expiresAtEpoch : Int
  replyTo : Option String
  replyByEpoch : Option Int
  replyDepth : Nat
  category : Option MessageCategory
  forwarding : Option Provenance
  deriving DecidableEq

/-! ## Wake-up receipts -/

/-- The states of a wake-up receipt. -/
inductive NotificationState
  | queued
  | attempting
  | promptSubmitted
  | attemptUnknown
  | undeliverable
  | notificationAttempting
  | invalid
  deriving DecidableEq

structure NotificationAttempt where
  generation : Nat
  recordedAtEpoch : Int
  reason : String

/-- The quota signal of a recipient (`mailbox_quota::State`). -/
structure QuotaState where
  aboveThreshold : Bool
  signalGeneration : Nat
  signalExpiresAtEpoch : Int

inductive NotificationKey
  | recipient (sessionId incarnation : String)
  | message (id : String)
  deriving DecidableEq

inductive CompatibilityId
  | generation (key : NotificationKey) (generation : Nat)
  | message (id : String)

structure NotificationReceipt where
  messageId : CompatibilityId
  targetSessionId : String
  targetIncarnation : String
  state : NotificationState
  generation : Nat
  notifiedGeneration : Nat
  attemptedGeneration : Nat
  queuedAtEpoch : Int
  attemptedQueuedAtEpoch : Int
  attemptedAtEpoch : Int
  attemptedAt : Option Int
  attemptedPromptFormat : Option String
  updatedAtEpoch : Int
  nextAttemptAtEpoch : Int
  lastReason : Option String
  lastReasonDetail : Option String
  attemptHistory : List NotificationAttempt
  quota : Option QuotaState
  routineIntervalSeconds : Int
  routineLastSubmittedAtEpoch : Int
  urgentGeneration : Nat
  prompt : Option String
  attemptedPrompt : Option String

structure NotificationProjection where
  state : Option NotificationState
  generation : Nat
  notifiedGeneration : Nat
  lastReason : Option String
  controllerAvailable : Bool
  deriving DecidableEq

/-- A quota refusal kept as evidence (`mailbox_quota::Rejection`). -/
structure QuotaRejection where
  sender : Origin
  recipient : Address
  category : MessageCategory
  occurredAtEpoch : Int

end NilsCli.Coordination
