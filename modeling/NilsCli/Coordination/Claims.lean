import NilsCli.Coordination.Context
import NilsCli.Coordination.Maintenance

/-!
# Claims and operations (`claims.rs`)

The requests of an authenticated session about its own work.
-/

namespace NilsCli.Coordination

open Lib

variable (env : Env) (registry : Registry)

def claimTtlSecs : Int := 30 * 60

def operationTtlSecs : Int := 30 * 60

def maxSessionCompletionEvents : Nat := 256

def contextByteLimit : Nat := 16 * 1024

def storeCorrupt : CliError :=
  .runtimeErr "coordination-store-corrupt" "coordination store is corrupt or unsupported"

/-! ## Shared steps -/

def inputFromRecord (claim : WorkContextRecord) : WorkContextInput where
  schemaVersion := workContextInputVersion
  intent := claim.intent
  tier := claim.tier
  repositories := claim.repositories
  worktrees := claim.worktrees
  providerRefs := claim.providerRefs
  planRefs := claim.planRefs
  scopes := claim.scopes
  summary := claim.summary

def WorkContextRecord.isActiveOf (claim : WorkContextRecord) (sessionId incarnation : String) :
    Bool :=
  claim.sessionId = sessionId && claim.sessionIncarnation = incarnation && claim.state = .active

def activeClaim (sessionId incarnation : String) : Except CliError WorkContextRecord :=
  orErr (registry.claims.find? fun claim => claim.isActiveOf sessionId incarnation)
    claimUnavailable

/-- The peer of one directory entry is known: stopped, or live with an active claim. -/
def entryComplete (excluded : Option (String × String)) (entry : DirEntry) : Bool :=
  match entry.isDir with
  | none => false
  | some false => true
  | some true =>
    match entry.name with
    | none => false
    | some id =>
      (excluded.any fun principal => id = principal.1) ||
        (registry.brokers.lookup id).any fun broker =>
          broker.state = .stopped ||
            (broker.state = .ready && env.heartbeatFresh id broker.incarnation &&
              registry.claims.any fun claim => claim.isActiveOf id broker.incarnation)

def completeRelevantUniverse (excluded : Option (String × String)) : Bool :=
  !(registry.claims.any fun claim =>
    claim.state = .active && (claim.schemaVersion ≠ workContextVersion ||
      claim.worktrees.any fun fingerprint =>
        fingerprintEpoch fingerprint ≠ some registry.fingerprintEpoch)) &&
    env.sessionEntries.any fun entries => entries.all (entryComplete env registry excluded)

def ensureFingerprintKey : Registry :=
  { registry with
    fingerprintEpoch := if registry.fingerprintEpoch = 0 then 1 else registry.fingerprintEpoch
    fingerprintKey := if registry.fingerprintKey = "" then env.freshKey
      else registry.fingerprintKey }

def worktreeFingerprint (env : Env) (registry : Registry) (cwd : String) :
    Except CliError String := do
  ensure (registry.fingerprintEpoch ≠ 0 ∧ 32 ≤ registry.fingerprintKey.utf8ByteSize) storeCorrupt
  orErr (env.worktreeFingerprint registry.fingerprintEpoch registry.fingerprintKey cwd)
    storeCorrupt

def addWorktree (candidate : WorkContextInput) (fingerprint : String) :
    Except CliError WorkContextInput := do
  if fingerprint ∈ candidate.worktrees then pure candidate
  else
    ensure (candidate.worktrees.length < 8)
      (invalidContext "work context exceeds the worktree fingerprint limit")
    pure { candidate with
      worktrees := sortBy textLe (candidate.worktrees ++ [fingerprint]) }

def releaseClaim (now : Int) (claim : WorkContextRecord) : WorkContextRecord :=
  { claim with
    state := .released
    revision := u64Succ claim.revision
    updatedAtEpoch := now
    terminalAtEpoch := some now }

/-- A new active claim of a principal. -/
def newClaim (now : Int) (sessionId incarnation : String)
    (candidate : WorkContextInput) : WorkContextRecord where
  schemaVersion := workContextVersion
  sessionId := sessionId
  sessionIncarnation := incarnation
  claimId := env.uuid
  revision := 1
  state := .active
  intent := candidate.intent
  tier := candidate.tier
  repositories := candidate.repositories
  worktrees := candidate.worktrees
  providerRefs := candidate.providerRefs
  planRefs := candidate.planRefs
  scopes := candidate.scopes
  summary := candidate.summary
  updatedAtEpoch := now
  expiresAtEpoch := i64Add now claimTtlSecs
  terminalAtEpoch := none

def claimConflict (message : String) : CliError := .dataErr "claim-conflict" message

variable (codec : Codec)

variable (env : Env) (value : String) (args : AdmitArgs) (registry : Registry)

/-! ## Claims -/

structure ClaimArgs where
  record : SessionRecord
  incarnation : String
  candidate : WorkContextInput
  ifRevision : Option Nat
  idempotencyKey : String

/-- Releases the active claim of the session, which the request names by its revision. -/
def replaceClaim (sessionId incarnation : String)
    (ifRevision : Option Nat) (now : Int) : Except CliError Registry :=
  let own := fun claim : WorkContextRecord => claim.isActiveOf sessionId incarnation
  match registry.claims.find? own with
  | some existing => do
    ensure (¬ hasNonterminalOperation registry.operations existing.claimId) operationInProgress
    ensure (ifRevision = some existing.revision) (revisionConflict "claim-revision-conflict")
    pure { registry with claims := updateFirst own (releaseClaim now) registry.claims }
  | none => do
    ensure (ifRevision = none) (revisionConflict "claim-revision-conflict")
    pure registry

/-- Declares the work context of a session, unless it conflicts with that of another. -/
def claim (env : Env) (args : ClaimArgs) (registry : Registry) :
    Except CliError (Registry × Outcome) := do
  let now := env.now
  let sessionId := args.record.id
  let incarnation := args.incarnation
  let candidate ← validateAndCanonicalize args.candidate
  let locked := ensureFingerprintKey env registry
  let fingerprint ← worktreeFingerprint env locked args.record.cwd
  let candidate ← addWorktree candidate fingerprint
  let key : ReceiptKey := ⟨sessionId, incarnation, .workContextClaim, args.idempotencyKey⟩
  let digest : RequestDigest := .claim candidate args.ifRevision
  let locked := cleanExpired env now locked
  ensureCurrentBroker env locked sessionId incarnation
  match ← idempotencyReplay env locked key digest with
  | some replay => pure (registry, replay)
  | none =>
    ensureNotificationSubmissionNotInProgress locked sessionId incarnation
    let locked ← replaceClaim locked sessionId incarnation args.ifRevision now
    let principal := some (sessionId, incarnation)
    let evaluation := evaluate principal candidate locked.claims
      (completeRelevantUniverse env locked principal) false
    ensure (evaluation.classification ≠ .conflict)
      (claimConflict "work context conflicts with an active claim")
    let claim := newClaim env now sessionId incarnation candidate
    ensure (codec.contextBytes claim ≤ contextByteLimit)
      (invalidContext "public work context exceeds 16 KiB")
    let locked := { locked with claims := locked.claims ++ [claim] }
    let outcome : Outcome := .claimResult (publicContext claim) evaluation
    let locked ← storeReceipt codec locked key digest outcome now
    pure (locked, outcome)

structure SetDeclaredArgs where
  record : SessionRecord
  incarnation : String
  candidate : WorkContextInput
  rejectConflict : Bool
  ifAbsent : Bool

def setDeclared (args : SetDeclaredArgs) (registry : Registry) :
    Except CliError (Registry × Outcome) := do
  let now := env.now
  let sessionId := args.record.id
  let incarnation := args.incarnation
  let candidate ← validateAndCanonicalize args.candidate
  let locked := ensureFingerprintKey env registry
  let fingerprint ← worktreeFingerprint env locked args.record.cwd
  let candidate ← addWorktree candidate fingerprint
  let locked := cleanExpired env now locked
  ensureCurrentBroker env locked sessionId incarnation
  ensureNotificationSubmissionNotInProgress locked sessionId incarnation
  let own := fun claim : WorkContextRecord => claim.isActiveOf sessionId incarnation
  let principal := some (sessionId, incarnation)
  let complete := completeRelevantUniverse env locked principal
  let evaluateInput := fun input : WorkContextInput =>
    evaluate principal input locked.claims complete (!args.rejectConflict)
  let evaluation := evaluateInput candidate
  let claim := newClaim env now sessionId incarnation candidate
  let oversized := invalidContext "public work context exceeds 16 KiB"
  match locked.claims.find? own with
  | some existing =>
    if args.ifAbsent then
      pure (registry,
        .setResult false (publicContext existing) (evaluateInput (inputFromRecord existing)))
    else
      ensure (¬ (args.rejectConflict ∧ evaluation.classification = .conflict))
        (claimConflict "work context conflicts with an active claim")
      if inputFromRecord existing = candidate then
        pure (registry, .setResult false (publicContext existing) evaluation)
      else
        ensure (¬ hasNonterminalOperation locked.operations existing.claimId) operationInProgress
        ensure (codec.contextBytes claim ≤ contextByteLimit) oversized
        pure ({ locked with claims := updateFirst own (releaseClaim now) locked.claims ++ [claim] },
          .setResult true (publicContext claim) evaluation)
  | none =>
    ensure (¬ (args.rejectConflict ∧ evaluation.classification = .conflict))
      (claimConflict "work context conflicts with an active claim")
    ensure (codec.contextBytes claim ≤ contextByteLimit) oversized
    pure ({ locked with claims := locked.claims ++ [claim] },
      .setResult true (publicContext claim) evaluation)

def clearDeclared (sessionId incarnation : String) (registry : Registry) :
    Except CliError (Registry × Outcome) := do
  let now := env.now
  let locked := cleanExpired env now registry
  ensureCurrentBroker env locked sessionId incarnation
  let own := fun claim : WorkContextRecord => claim.isActiveOf sessionId incarnation
  match locked.claims.find? own with
  | none => pure (registry, .cleared none)
  | some claim =>
    ensure (¬ hasNonterminalOperation locked.operations claim.claimId) operationInProgress
    pure ({ locked with claims := updateFirst own (releaseClaim now) locked.claims },
      .cleared (some claim.claimId))

structure ClaimRevisionArgs where
  sessionId : String
  incarnation : String
  claim : String
  ifRevision : Nat
  idempotencyKey : String

/-- The claim that `renew` and `release` name. -/
def ClaimRevisionArgs.names (args : ClaimRevisionArgs) (claim : WorkContextRecord) : Bool :=
  claim.isActiveOf args.sessionId args.incarnation && claim.claimId = args.claim

/-- A claim renewed by its owner. -/
def ownerRenewedClaim (now : Int) (claim : WorkContextRecord) : WorkContextRecord :=
  { claim with
    revision := u64Succ claim.revision
    updatedAtEpoch := now
    expiresAtEpoch := i64Add now claimTtlSecs }

/-- Extends an active claim. -/
def renew (args : ClaimRevisionArgs) (registry : Registry) :
    Except CliError (Registry × Outcome) := do
  let now := env.now
  let locked := cleanExpired env now registry
  let key : ReceiptKey := ⟨args.sessionId, args.incarnation, .workContextRenew, args.idempotencyKey⟩
  let digest : RequestDigest := .claimRevision args.claim args.ifRevision
  match ← idempotencyReplay env locked key digest with
  | some replay => pure (registry, replay)
  | none =>
    ensureCurrentBroker env locked args.sessionId args.incarnation
    ensureNotificationSubmissionNotInProgress locked args.sessionId args.incarnation
    let claim ← orErr (locked.claims.find? args.names) claimUnavailable
    ensure (claim.revision = args.ifRevision) (revisionConflict "claim-revision-conflict")
    let locked := { locked with
      claims := updateFirst args.names (ownerRenewedClaim now) locked.claims }
    let outcome : Outcome := .context (publicContext (ownerRenewedClaim now claim))
    let locked ← storeReceipt codec locked key digest outcome now
    pure (locked, outcome)

/-- Ends an active claim that has no lease in progress. -/
def release (args : ClaimRevisionArgs) (registry : Registry) :
    Except CliError (Registry × Outcome) := do
  let now := env.now
  let key : ReceiptKey :=
    ⟨args.sessionId, args.incarnation, .workContextRelease, args.idempotencyKey⟩
  let digest : RequestDigest := .claimRevision args.claim args.ifRevision
  match ← idempotencyReplay env registry key digest with
  | some replay => pure (registry, replay)
  | none =>
    let claim ← orErr (registry.claims.find? args.names) claimUnavailable
    ensure (¬ hasNonterminalOperation registry.operations args.claim) operationInProgress
    ensure (claim.revision = args.ifRevision) (revisionConflict "claim-revision-conflict")
    let locked := { registry with
      claims := updateFirst args.names (releaseClaim now) registry.claims }
    let outcome : Outcome := .context (publicContext (releaseClaim now claim))
    let locked ← storeReceipt codec locked key digest outcome now
    pure (locked, outcome)

/-! ## Operations -/

structure AdmitArgs where
  record : SessionRecord
  incarnation : String
  capabilityToken : String
  claim : String
  ifRevision : Nat
  operation : String
  executionToken : String
  targets : List Scope
  providerRefs : List ProviderRef
  pullRequests : List PullRequestTarget
  checkouts : List CheckoutBinding
  descendant : Option DescendantIdentity
  idempotencyKey : String

structure AdmissionRequest where
  targets : List Scope
  providerTargets : List ProviderRef
  pullRequestTargets : List PullRequestTarget
  tokenDigest : TextDigest
  digest : RequestDigest

def validateOperationKind : Except CliError Unit :=
  ensure (value ≠ "" ∧ value.utf8ByteSize ≤ 64 ∧ value.toList.all isKebab)
    (.usageErr "invalid-operation-kind" "operation kind must use 1-64 lower-kebab ASCII bytes")

def validateExecutionToken : Except CliError Unit :=
  ensure (8 ≤ value.utf8ByteSize ∧ value.utf8ByteSize ≤ 256 ∧ value.toList.all isAscii ∧
      ¬ value.toList.any isAsciiControl)
    (.usageErr "invalid-execution-token" "execution token is invalid")

def validateDescendant (descendant : Option DescendantIdentity) : Except CliError Unit :=
  ensure (descendant.all fun descendant => 1 < descendant.pid && descendant.startTime ≠ 0)
    (invalidScope "descendant identity requires a positive non-system PID and start time")

def canonicalBranch : Except CliError String :=
  let value := trim value
  let cs := value.toList
  let bad := value = "" || value.utf8ByteSize > 255 ||
    startsWith value '-' || startsWith value '/' || startsWith value '.' ||
    endsWith value '/' || endsWith value '.' || ".lock".toList.isSuffixOf cs ||
    containsText value ".." || containsText value "//" || containsText value "@\x7b" ||
    cs.any fun c => isControl c || isWhitespace c || c ∈ "~^:?*[\\".toList
  if bad then .error (invalidScope "pull request head must be a valid branch name") else .ok value

/-- The derived order of `PullRequestTarget`. -/
def PullRequestTarget.le (a b : PullRequestTarget) : Bool :=
  textLt a.kind b.kind || (a.kind = b.kind &&
    (textLt a.repository b.repository || (a.repository = b.repository && textLe a.head b.head)))

def canonicalizePullRequestTargets (targets : List PullRequestTarget) :
    Except CliError (List PullRequestTarget) := do
  ensure (targets.length ≤ 16) (invalidScope "operation targets exceed the pull request limit")
  let targets ← targets.mapM fun target => do
    ensure (target.kind = "pull-request-head")
      (invalidScope "pull request target kind must be pull-request-head")
    let repository ← canonicalRepository target.repository
    let head ← canonicalBranch target.head
    pure (⟨target.kind, repository, head⟩ : PullRequestTarget)
  ensure targets.Nodup
    (invalidContext "work context contains a duplicate pull request target")
  pure (sortBy PullRequestTarget.le targets)

/-- `admission_request::prepare`. -/
def prepareAdmission : Except CliError AdmissionRequest := do
  validateOperationKind args.operation
  validateExecutionToken args.executionToken
  validateDescendant args.descendant
  let targets ← canonicalizeTargets args.targets
  let providerTargets ← canonicalizeProviderRefs args.providerRefs
  let pullRequestTargets ← canonicalizePullRequestTargets args.pullRequests
  ensure (¬ (targets = [] ∧ providerTargets = [] ∧ pullRequestTargets = []))
    (invalidScope "operation targets must name at least one filesystem or provider mutation")
  let tokenDigest := digestBytes args.executionToken
  pure
    { targets := targets
      providerTargets := providerTargets
      pullRequestTargets := pullRequestTargets
      tokenDigest := tokenDigest
      digest := .admission args.claim args.ifRevision args.operation targets providerTargets
        pullRequestTargets args.checkouts args.descendant tokenDigest }

/-- The claim covers the targets of the request. -/
def ensureCovered (claim : WorkContextRecord) (request : AdmissionRequest) :
    Except CliError Unit := do
  ensure (request.targets.all fun target => claim.scopes.any fun scope => scopeCovers scope target)
    (.dataErr "uncovered-mutation-scope" "operation target is not covered by the active claim")
  ensure (request.providerTargets.all fun target => target ∈ claim.providerRefs)
    (.dataErr "uncovered-mutation-scope"
      "provider mutation target is not covered by the active claim")
  ensure (request.pullRequestTargets = [])
    (.dataErr "uncovered-mutation-scope" "pull request target is not covered by the active claim")

/-- The lease that `admit` adds. -/
def newLease (now : Int) (args : AdmitArgs) (request : AdmissionRequest)
    (claim : WorkContextRecord) (activity : TurnState) (runtime : RuntimeEvidence) :
    OperationLease where
  leaseId := env.uuid
  sessionId := args.record.id
  sessionIncarnation := args.incarnation
  claimId := claim.claimId
  claimRevision := claim.revision
  operation := args.operation
  targets := request.targets
  providerTargets := request.providerTargets
  pullRequestTargets := request.pullRequestTargets
  state := .active
  revision := 1
  startedAtEpoch := now
  expiresAtEpoch := i64Add now operationTtlSecs
  terminalAtEpoch := none
  executionTokenDigest := request.tokenDigest
  activityRevision := activity.revision
  activityIdentityDigest := activityIdentityDigest activity
  runtimeIdentityDigest := runtime.identityDigest
  descendant := args.descendant
  reconcileObservedAtEpoch := none
  outcome := none

/-- The active claim that covers the request and conflicts with no peer. -/
def admissibleClaim (request : AdmissionRequest)
    (locked : Registry) : Except CliError WorkContextRecord := do
  let sessionId := args.record.id
  ensure (¬ locked.operations.any fun lease => lease.sessionId = sessionId && lease.nonterminal)
    (.dataErr "coordination-unavailable" "a prior mutation operation is still active or uncertain")
  let claim ← activeClaim locked sessionId args.incarnation
  ensure (env.now < claim.expiresAtEpoch) claimUnavailable
  ensure (claim.claimId = args.claim ∧ claim.revision = args.ifRevision)
    (revisionConflict "claim-revision-conflict")
  ensureCovered claim request
  let principal := some (sessionId, args.incarnation)
  let evaluation := evaluate principal (inputFromRecord claim) locked.claims
    (completeRelevantUniverse env locked principal) false
  ensure (evaluation.classification ≠ .conflict)
    (claimConflict "operation admission conflicts with an active peer")
  pure claim

/-- The receipt key of an admission. -/
def AdmitArgs.receiptKey : ReceiptKey :=
  ⟨args.record.id, args.incarnation, .workContextAdmit, args.idempotencyKey⟩

/-- The lookup of an admission, in a lock of its own. -/
def admitReplay : Except CliError (Option Outcome) := do
  let request ← prepareAdmission args
  ensureCurrentBrokerCapability env registry args.record.id args.incarnation
    (digestBytes args.capabilityToken)
  idempotencyReplay env registry args.receiptKey request.digest

/-- `admit`, its last section. -/
def admitOperation : Except CliError (Registry × Outcome) := do
  let now := env.now
  let sessionId := args.record.id
  let request ← prepareAdmission args
  ensure (env.physicalTargetsValid args.record.cwd request.targets args.checkouts)
    (.dataErr "uncovered-mutation-scope"
      "operation target could not be proven inside the physical checkout boundary")
  let locked := cleanExpired env now registry
  ensureCurrentBrokerCapability env locked sessionId args.incarnation
    (digestBytes args.capabilityToken)
  match ← idempotencyReplay env locked args.receiptKey request.digest with
  | some replay => pure (registry, replay)
  | none =>
    ensureNotificationSubmissionNotInProgress locked sessionId args.incarnation
    let claim ← admissibleClaim env args request locked
    let activity ← orErr (env.controllerState args.record)
      (.runtimeErr "coordination-unavailable"
        "controller-owned activity state is unavailable for operation admission")
    ensure (activity.phase = .working)
      (.dataErr "operation-not-working"
        "mutation operation admission requires controller-observed working state")
    let runtime ← orErr (env.runtimeEvidence args.record)
      (.runtimeErr "coordination-runtime-unverified" "persisted runtime identity is unavailable")
    ensure (runtime.status = .running)
      (.runtimeErr "coordination-unavailable"
        "the exact persisted runtime is not confirmed running")
    let lease := newLease env now args request claim activity runtime
    let locked := { locked with operations := locked.operations ++ [lease] }
    let outcome : Outcome := .lease (publicLease lease)
    let locked ← storeReceipt codec locked args.receiptKey request.digest outcome now
    pure (locked, outcome)

structure CompleteArgs where
  sessionId : String
  incarnation : String
  lease : String
  ifRevision : Nat
  executionToken : String
  outcome : CompletionOutcome
  idempotencyKey : String

/-- The digest of a `complete` request. -/
def CompleteArgs.digest (args : CompleteArgs) : RequestDigest :=
  .complete args.lease args.ifRevision (digestBytes args.executionToken) args.outcome

def CompleteArgs.receiptKey (args : CompleteArgs) : ReceiptKey :=
  ⟨args.sessionId, args.incarnation, .workContextComplete, args.idempotencyKey⟩

/-- The event that `complete` persists. -/
def CompleteArgs.event (args : CompleteArgs) (now : Int) : CompletionEvent where
  eventId := ⟨args.sessionId, args.incarnation, args.lease, args.idempotencyKey⟩
  sessionId := args.sessionId
  sessionIncarnation := args.incarnation
  leaseId := args.lease
  ifRevision := args.ifRevision
  executionTokenDigest := digestBytes args.executionToken
  outcome := args.outcome
  idempotencyKey := args.idempotencyKey
  requestDigest := args.digest
  createdAtEpoch := now

/-- Leaves a completion event for the lease, which a drain applies. -/
def complete (env : Env) (args : CompleteArgs) (registry : Registry) :
    Except CliError (Registry × Outcome) := do
  validateExecutionToken args.executionToken
  match ← idempotencyReplay env registry args.receiptKey args.digest with
  | some replay => pure (registry, replay)
  | none =>
    let lease ← orErr (registry.operations.find? fun lease =>
      lease.isNamed args.sessionId args.incarnation args.lease) operationUnavailable
    ensure (lease.revision = args.ifRevision ∧ lease.nonterminal)
      (revisionConflict "operation-revision-conflict")
    ensure (lease.executionTokenDigest = digestBytes args.executionToken) unauthorized
    let event := args.event env.now
    match registry.completionEvents.find? fun pending => pending.eventId = event.eventId with
    | some pending =>
      ensure (pending.requestDigest = args.digest) idempotencyKeyReused
      pure (registry, .unit)
    | none =>
      let queued := (registry.completionEvents.filter fun pending =>
        pending.sessionId = args.sessionId).length
      ensure (queued < maxSessionCompletionEvents)
        (quotaExceeded "operation completion queue quota exceeded" "completion-events" queued
          maxSessionCompletionEvents)
      pure ({ registry with completionEvents := registry.completionEvents ++ [event] }, .unit)

/-- The last section of `complete`. -/
def completeReplay (args : CompleteArgs) (registry : Registry) :
    Except CliError (Registry × Outcome) := do
  let replay ← idempotencyReplay env registry args.receiptKey args.digest
  let outcome ← orErr replay operationUnavailable
  pure (registry, outcome)

/-- `drain_completion_events`. -/
def drainSection : Except CliError (Registry × Outcome) := do
  let (registry, drained) ← drainCompletionEvents codec (cleanExpired env env.now registry) env.now
  pure (registry, .drained drained)

structure ReconcileArgs where
  record : SessionRecord
  incarnation : String
  lease : String
  ifRevision : Nat
  executionToken : String
  outcome : CompletionOutcome
  idempotencyKey : String

def ReconcileArgs.digest (args : ReconcileArgs) : RequestDigest :=
  .reconcile args.lease args.ifRevision args.executionToken args.outcome

def ReconcileArgs.receiptKey (args : ReconcileArgs) : ReceiptKey :=
  ⟨args.record.id, args.incarnation, .workContextReconcile, args.idempotencyKey⟩

/-- A first observation of quiescence. -/
def pendingLease (now : Int) (lease : OperationLease) : OperationLease :=
  { lease with
    state := .reconcilePending
    revision := u64Succ lease.revision
    reconcileObservedAtEpoch := some now }

/-- A lease ended by its owner's recovery proof. -/
def reconcileLease (outcome : CompletionOutcome) (now : Int) (lease : OperationLease) :
    OperationLease :=
  { completeLease outcome now lease with reconcileObservedAtEpoch := none }

/-- Ends a lease whose runtime has stopped or is quiet. -/
def reconcile (env : Env) (args : ReconcileArgs) (registry : Registry) :
    Except CliError (Registry × Outcome) := do
  let now := env.now
  let lease ← orErr (registry.operations.find? fun lease =>
    lease.isNamed args.record.id args.incarnation args.lease) operationUnavailable
  ensure (lease.revision = args.ifRevision ∧
      lease.executionTokenDigest = digestBytes args.executionToken)
    (revisionConflict "operation-revision-conflict")
  ensure lease.nonterminal (revisionConflict "operation-revision-conflict")
  let unverified : CliError := .runtimeErr "coordination-runtime-unverified"
    "the exact operation runtime could not be verified"
  let runtime ← orErr (env.runtimeEvidence args.record) unverified
  ensure (runtime.identityDigest = lease.runtimeIdentityDigest ∧ runtime.status ≠ .unknown)
    unverified
  ensure (runtime.status = .stopped ∨ controllerObservedQuiescent env args.record lease)
    (.dataErr "operation-still-running"
      "controller-owned activity or descendant evidence still identifies the operation as live")
  -- the source looks the lease up again by its id alone
  let named := fun candidate : OperationLease => decide (candidate.leaseId = lease.leaseId)
  let finish := fun (f : OperationLease → OperationLease) => do
    let target ← orErr (registry.operations.find? named) operationUnavailable
    let outcome : Outcome := .lease (publicLease (f target))
    let locked := { registry with operations := updateFirst named f registry.operations }
    let locked ← storeReceipt codec locked args.receiptKey args.digest outcome now
    pure (locked, outcome)
  if runtime.status ≠ .stopped ∧ lease.state ≠ .reconcilePending then finish (pendingLease now)
  else
    ensure (runtime.status = .stopped ∨
        lease.reconcileObservedAtEpoch.getD now ≤ i64Sub now 5)
      (.dataErr "operation-reconcile-pending"
        "operation quiescence requires a second observation after five seconds")
    finish (reconcileLease args.outcome now)

structure OperatorReconcileArgs where
  record : SessionRecord
  incarnation : String
  generation : Nat
  lease : String
  ifRevision : Nat
  idempotencyKey : String

/-- The last section of `operator_reconcile_operation` (`server.rs`) after the drain drained
nothing; the evidence was taken from a snapshot in an earlier section. -/
def operatorReconcileOperation (args : OperatorReconcileArgs)
    (evidence : OperatorReconcileEvidence) (registry : Registry) :
    Except CliError (Registry × Outcome) := do
  let now := env.now
  let (locked, lease) ← operatorAttestedTransition env registry args.record.id args.incarnation
    args.lease args.ifRevision now evidence
  let outcome : Outcome := .lease lease
  let key : ReceiptKey :=
    ⟨args.record.id, args.incarnation, .operatorOperationReconcile, args.idempotencyKey⟩
  let digest : RequestDigest := .operatorReconcile args.record.id args.incarnation
    args.generation args.lease args.ifRevision
  let locked ← storeReceipt codec locked key digest outcome now
  pure (locked, outcome)

end NilsCli.Coordination
