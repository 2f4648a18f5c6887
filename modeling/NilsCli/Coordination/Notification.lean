import Mathlib.Data.List.Dedup
import NilsCli.Lib.Guard
import NilsCli.Lib.Text
import NilsCli.Coordination.Registry

/-!
# Wake-up receipts (`notification.rs` and its parts)

A recipient incarnation has one wake-up receipt. Each message for it advances the receipt's
generation; a generation is announced once, by a prompt of the broker or by a reminder of the
recipient's hook.
-/

namespace NilsCli.Coordination

open Lib

def reasonPending : String := "notification-pending"

def reasonAttempting : String := "notification-attempting"

def reasonMigratedUnknown : String := "migrated-attempt-outcome-unknown"

def reasonInvalidState : String := "notification-state-invalid"

def reasonHookDelivered : String := "hook-delivered"

def reasonDrained : String := "mailbox-drained"

def maxAttemptHistory : Nat := 8

def noticeFormat : String := "mailbox-notice.v1"

/-- The reasons a receipt may keep. -/
def safeReasons : List String :=
  ["notification-pending", "notification-attempting", "prompt-accepted", "recipient-working",
    "recipient-attached", "recipient-composer-not-empty", "recipient-composer-unobservable",
    "submission-not-confirmed", "notification-residual-changed",
    "notification-residual-unobservable-or-changed", "recipient-coordination-not-quiescent",
    "provider-not-ready", "controller-unavailable", "rate-limited",
    "recipient-incarnation-replaced", "provider-unsupported", "coordination-disabled",
    "recipient-unmanaged", "submission-outcome-unknown", "provider-observation-unavailable",
    "migrated-attempt-outcome-unknown", "notification-state-invalid", "mailbox-drained",
    "hook-delivered"]

def safeReason (reason : String) : String :=
  if reason ∈ safeReasons then reason else reasonInvalidState

/-- `jiff::Timestamp::from_second` accepts this second. -/
def validSecond (second : Int) : Bool := -377705023201 ≤ second && second ≤ 253402207200

/-- The newest `maxAttemptHistory` attempts. -/
def trimHistory (history : List NotificationAttempt) : List NotificationAttempt :=
  history.drop (history.length - maxAttemptHistory)

namespace NotificationReceipt

/-- `NotificationReceipt::default()` for a recipient. -/
def forTarget (sessionId incarnation : String) : NotificationReceipt where
  messageId := .message ""
  targetSessionId := sessionId
  targetIncarnation := incarnation
  state := .invalid
  generation := 0
  notifiedGeneration := 0
  attemptedGeneration := 0
  queuedAtEpoch := 0
  attemptedQueuedAtEpoch := 0
  attemptedAtEpoch := 0
  attemptedAt := none
  attemptedPromptFormat := none
  updatedAtEpoch := 0
  nextAttemptAtEpoch := 0
  lastReason := none
  lastReasonDetail := none
  attemptHistory := []
  quota := none
  routineIntervalSeconds := 0
  routineLastSubmittedAtEpoch := 0
  urgentGeneration := 0
  prompt := none
  attemptedPrompt := none

def key (receipt : NotificationReceipt) : NotificationKey :=
  .recipient receipt.targetSessionId receipt.targetIncarnation

def recordAttempt (receipt : NotificationReceipt) (generation : Nat) (reason : String)
    (now : Int) : NotificationReceipt :=
  { receipt with
    attemptHistory := trimHistory (receipt.attemptHistory ++ [⟨generation, now, safeReason reason⟩]) }

end NotificationReceipt

/-! ## Pending content -/

def liveUnread (now : Int) (message : StoredMessage) : Bool :=
  !message.notificationSuppressed && message.state = .unread && message.expiresAtEpoch > now

def StoredMessage.addressedTo (message : StoredMessage) (sessionId incarnation : String) : Bool :=
  message.recipientSessionId = sessionId && message.recipientIncarnation = incarnation

/-- `mailbox_quota::pending`: an unannounced, unexpired quota signal. -/
def quotaPending (now : Int) (receipt : NotificationReceipt) : Bool :=
  receipt.quota.any fun quota =>
    quota.signalGeneration > receipt.notifiedGeneration && quota.signalExpiresAtEpoch > now

/-- `mailbox_quota::has_pending`. -/
def hasQuotaPending (registry : Registry) (sessionId incarnation : String) (now : Int) : Bool :=
  (Table.values registry.notifications).any fun receipt =>
    receipt.targetSessionId = sessionId && receipt.targetIncarnation = incarnation &&
      quotaPending now receipt

def hasPendingContent (registry : Registry) (sessionId incarnation : String) (now : Int) : Bool :=
  hasQuotaPending registry sessionId incarnation now ||
    registry.messages.any fun message =>
      message.addressedTo sessionId incarnation && liveUnread now message

/-! ## Normalization -/

def statePriority : NotificationState → Nat
  | .attemptUnknown => 5
  | .attempting => 4
  | .queued => 3
  | .undeliverable => 2
  | .promptSubmitted => 1
  | .notificationAttempting | .invalid => 0

/-- `merge_current`: the receipt of the higher generation, or of the higher priority. -/
def mergeCurrent (current : Option NotificationReceipt) (candidate : NotificationReceipt) :
    Option NotificationReceipt :=
  match current with
  | none => some candidate
  | some existing =>
    if existing.generation > candidate.generation then some existing
    else if existing.generation = candidate.generation then
      if statePriority candidate.state > statePriority existing.state then some candidate
      else some { existing with
        notifiedGeneration := max existing.notifiedGeneration candidate.notifiedGeneration }
    else some candidate

/-- The state is one that this release writes. -/
def NotificationState.known : NotificationState → Bool
  | .queued | .attempting | .promptSubmitted | .attemptUnknown | .undeliverable => true
  | .notificationAttempting | .invalid => false

variable (codec : Codec)

variable (registry : Registry) (candidate : NotificationCandidate) (now : Int)
  (receipt : NotificationReceipt)

def normalizeCurrent : NotificationReceipt :=
  let receipt := { receipt with
    notifiedGeneration := min receipt.notifiedGeneration receipt.generation
    prompt := receipt.prompt.filter codec.isMailboxReminderPrompt
    attemptedAt := receipt.attemptedAt.filter fun time =>
      time / 1000000000 = receipt.attemptedAtEpoch }
  let receipt :=
    if receipt.state.known then receipt
    else { receipt with state := .undeliverable, lastReason := some reasonInvalidState }
  let receipt :=
    if receipt.state = .attempting ∧
        (receipt.attemptedGeneration = 0 ∨ receipt.attemptedGeneration > receipt.generation) then
      { receipt with
        state := .attemptUnknown
        attemptedGeneration := receipt.generation
        lastReason := some reasonInvalidState }
    else receipt
  { receipt with
    updatedAtEpoch := if receipt.updatedAtEpoch = 0 then now else receipt.updatedAtEpoch
    lastReason := receipt.lastReason.map safeReason
    attemptHistory := (trimHistory (receipt.attemptHistory.filter fun attempt =>
      0 < attempt.generation && attempt.generation ≤ receipt.generation &&
        attempt.recordedAtEpoch > 0 && validSecond attempt.recordedAtEpoch)).map
      fun attempt => { attempt with reason := safeReason attempt.reason } }

/-- `compatibility_generation`: the generation an older release wrote into the id. -/
def compatibilityGeneration (id : CompatibilityId) (key : NotificationKey) : Option Nat :=
  match id with
  | .generation key' generation => if key' = key ∧ 0 < generation then some generation else none
  | .message _ => none

def historicalLe (key : NotificationKey) (left right : NotificationReceipt) : Bool :=
  let rank (receipt : NotificationReceipt) : Nat × Nat :=
    match compatibilityGeneration receipt.messageId key with
    | some generation => (0, generation)
    | none => (1, 0)
  let idText (receipt : NotificationReceipt) : String := codec.compatibilityIdText receipt.messageId
  (rank left).1 < (rank right).1 || ((rank left).1 = (rank right).1 &&
    ((rank left).2 < (rank right).2 || ((rank left).2 = (rank right).2 &&
      (left.attemptedAtEpoch < right.attemptedAtEpoch ||
        (left.attemptedAtEpoch = right.attemptedAtEpoch &&
          textLe (idText left) (idText right))))))

def migrateState (historical receipt : NotificationReceipt) : NotificationReceipt :=
  match historical.state with
  | .notificationAttempting | .attempting | .attemptUnknown => { receipt with
      state := .attemptUnknown
      attemptedGeneration := receipt.generation
      attemptedAtEpoch := historical.attemptedAtEpoch
      attemptedPromptFormat := historical.attemptedPromptFormat
      lastReason := some reasonMigratedUnknown }
  | .promptSubmitted => { receipt with
      state := .promptSubmitted
      attemptedGeneration := receipt.generation
      notifiedGeneration := receipt.generation
      attemptedAtEpoch := historical.attemptedAtEpoch
      attemptedPromptFormat := historical.attemptedPromptFormat
      lastReason := some "prompt-accepted" }
  | .queued => { receipt with state := .queued, lastReason := some reasonPending }
  | .undeliverable => { receipt with
      state := .undeliverable
      lastReason := some (historical.lastReason.elim reasonInvalidState safeReason) }
  | .invalid => { receipt with state := .undeliverable, lastReason := some reasonInvalidState }

def migrateHistorical (key : NotificationKey) (receipt historical : NotificationReceipt) :
    NotificationReceipt :=
  let restored := compatibilityGeneration historical.messageId key
  if restored.any (· < receipt.generation) then receipt
  else
    migrateState historical { receipt with
      generation := restored.getD (u64Succ receipt.generation)
      queuedAtEpoch := max receipt.queuedAtEpoch historical.attemptedAtEpoch
      updatedAtEpoch := max receipt.updatedAtEpoch historical.attemptedAtEpoch }

def normalizeGroup (key : NotificationKey) (sessionId incarnation : String)
    (group : List NotificationReceipt) : NotificationReceipt :=
  let current := (group.filter fun receipt => receipt.generation ≠ 0).foldl mergeCurrent none
  let historical := group.filter fun receipt => receipt.generation = 0
  let receipt := normalizeCurrent codec now (current.getD (.forTarget sessionId incarnation))
  let receipt := (sortBy (historicalLe codec key) historical).foldl (migrateHistorical key) receipt
  { receipt with messageId := .generation key receipt.generation }

def notificationTargets (receipts : List NotificationReceipt) : List (String × String) :=
  ((receipts.filter fun receipt =>
    receipt.targetSessionId ≠ "" && receipt.targetIncarnation ≠ "").map fun receipt =>
      (receipt.targetSessionId, receipt.targetIncarnation)).dedup

def groupReceipts (receipts : List NotificationReceipt) :
    Table NotificationKey NotificationReceipt where
  entries := (notificationTargets receipts).map fun target =>
    ⟨.recipient target.1 target.2,
      normalizeGroup codec now (.recipient target.1 target.2) target.1 target.2
        (receipts.filter fun receipt =>
          receipt.targetSessionId = target.1 && receipt.targetIncarnation = target.2)⟩
  nodupKeys := by
    rw [List.NodupKeys, List.keys, List.map_map]
    refine List.Nodup.map ?_ (List.nodup_dedup _)
    rintro ⟨s, i⟩ ⟨s', i'⟩ h
    simpa using h

def resumeNewGeneration : NotificationReceipt :=
  if receipt.state = .attemptUnknown ∧ receipt.attemptedGeneration > 0 ∧
      receipt.generation > receipt.attemptedGeneration ∧
      receipt.generation > receipt.notifiedGeneration then
    { receipt with
      state := .queued
      nextAttemptAtEpoch := now
      updatedAtEpoch := now
      lastReason := some reasonPending }
  else receipt

def newestUnread (messages : List StoredMessage) (now : Int) (sessionId incarnation : String) :
    Option Int :=
  ((messages.filter fun message =>
      message.addressedTo sessionId incarnation && liveUnread now message).map fun message =>
    message.forwardedAtEpoch.getD message.createdAtEpoch).max?

/-- `recovery::refresh` of one receipt. -/
def refreshReceipt (messages : List StoredMessage) (now : Int) (receipt : NotificationReceipt) :
    NotificationReceipt :=
  let receipt := resumeNewGeneration now receipt
  if receipt.state ≠ .queued then receipt
  else
    match newestUnread messages now receipt.targetSessionId receipt.targetIncarnation with
    | some newest => { receipt with queuedAtEpoch := max receipt.queuedAtEpoch newest }
    | none => receipt

def normalizeRegistry (registry : Registry) : Registry :=
  { registry with
    notifications := Table.mapVal (fun _ receipt => refreshReceipt registry.messages now receipt)
      (groupReceipts codec now (Table.values registry.notifications)) }

/-! ## Scheduling and delivery -/

def projection : NotificationProjection where
  state := some receipt.state
  generation := receipt.generation
  notifiedGeneration := receipt.notifiedGeneration
  lastReason := receipt.lastReason.map safeReason
  controllerAvailable := false

def scheduleReceipt : NotificationReceipt :=
  let generation := u64Succ receipt.generation
  let receipt := resumeNewGeneration now { receipt with
    generation := generation
    messageId := .generation receipt.key generation
    queuedAtEpoch := now
    updatedAtEpoch := now }
  if receipt.state = .attempting ∨ receipt.state = .attemptUnknown then receipt
  else { receipt with state := .queued, lastReason := some reasonPending }

/-- `schedule`: the receipt of the recipient, new or not, advances by one generation. -/
def schedule (sessionId incarnation : String) (now : Int) : Registry × NotificationProjection :=
  let registry := normalizeRegistry codec now registry
  let key : NotificationKey := .recipient sessionId incarnation
  let receipt := scheduleReceipt now
    ((registry.notifications.lookup key).getD (.forTarget sessionId incarnation))
  ({ registry with notifications := registry.notifications.insert key receipt }, projection receipt)

def submissionFencesSession (sessionId incarnation : String) : Bool :=
  (registry.notifications.lookup (.recipient sessionId incarnation)).any fun receipt =>
    receipt.state = .attempting && receipt.attemptedGeneration > receipt.notifiedGeneration

/-- `coalescing::due`: the routine window of the recipient is over, or the wake-up is urgent. -/
def due : Bool :=
  let last := max receipt.routineLastSubmittedAtEpoch receipt.attemptedAtEpoch
  receipt.routineIntervalSeconds = 0 || receipt.urgentGeneration > receipt.notifiedGeneration ||
    last = 0 || i64Sub now last ≥ receipt.routineIntervalSeconds

structure NotificationCandidate where
  prompt : Option String
  targetSessionId : String
  targetIncarnation : String
  generation : Nat
  queuedAtEpoch : Int
  attemptedAtEpoch : Int
  attemptedAt : Option Int

namespace NotificationCandidate

def key : NotificationKey :=
  .recipient candidate.targetSessionId candidate.targetIncarnation

def ofAttempt : NotificationCandidate :=
  ⟨receipt.attemptedPrompt, receipt.targetSessionId, receipt.targetIncarnation,
    receipt.attemptedGeneration, receipt.attemptedQueuedAtEpoch, receipt.attemptedAtEpoch,
    receipt.attemptedAt⟩

end NotificationCandidate

def resolve : NotificationReceipt :=
  if receipt.state = .attempting ∨ receipt.generation = 0 ∨
      receipt.lastReason = some reasonDrained then receipt
  else { receipt with
    lastReason := some reasonDrained
    updatedAtEpoch := now
    nextAttemptAtEpoch := 0 }

def resolveDrainedGeneration (sessionId incarnation : String) (now : Int) : Registry :=
  if hasPendingContent registry sessionId incarnation now then registry
  else { registry with
    notifications := Table.modify (.recipient sessionId incarnation) (resolve now)
      registry.notifications }

def resolveDrainedGenerations : Registry :=
  { registry with
    notifications := Table.mapVal (fun _ receipt =>
      if quotaPending now receipt || registry.messages.any fun message =>
          message.addressedTo receipt.targetSessionId receipt.targetIncarnation &&
            liveUnread now message
      then receipt else resolve now receipt) registry.notifications }

/-- The guard of `transition_attempt_at`. -/
def attemptAdmitted : Bool :=
  receipt.state = .queued && receipt.generation = candidate.generation &&
    receipt.generation > receipt.notifiedGeneration && receipt.nextAttemptAtEpoch ≤ now &&
    due now receipt

def beginAttempt (attemptedAt : Int) (receipt : NotificationReceipt) : NotificationReceipt :=
  { receipt with
    attemptedPrompt := some (candidate.prompt.getD codec.fixedPrompt)
    state := .attempting
    attemptedGeneration := receipt.generation
    attemptedQueuedAtEpoch := receipt.queuedAtEpoch
    attemptedAtEpoch := now
    attemptedAt := some attemptedAt
    attemptedPromptFormat := some noticeFormat
    updatedAtEpoch := now
    lastReason := some reasonAttempting }

def transitionAttemptAt (attemptedAt : Int) : Registry × Option NotificationCandidate :=
  let registry := normalizeRegistry codec now registry
  match registry.notifications.lookup candidate.key with
  | none => (registry, none)
  | some receipt =>
    if attemptAdmitted candidate now receipt then
      let receipt := beginAttempt codec candidate now attemptedAt receipt
      ({ registry with notifications := registry.notifications.insert candidate.key receipt },
        some { NotificationCandidate.ofAttempt receipt with
          targetSessionId := candidate.targetSessionId
          targetIncarnation := candidate.targetIncarnation })
    else (registry, none)

def matchingAttempt : Option NotificationReceipt :=
  (registry.notifications.lookup candidate.key).filter fun receipt =>
    (receipt.state = .attempting || receipt.state = .attemptUnknown) &&
      receipt.attemptedGeneration = candidate.generation

def updateMatching (f : NotificationReceipt → NotificationReceipt) : Option Registry :=
  (matchingAttempt registry candidate).map fun receipt =>
    { registry with notifications := registry.notifications.insert candidate.key (f receipt) }

def submittedReceipt : NotificationReceipt :=
  let newer : Bool := receipt.generation > candidate.generation
  NotificationReceipt.recordAttempt
    { receipt with
      routineLastSubmittedAtEpoch := now
      notifiedGeneration := max receipt.notifiedGeneration candidate.generation
      state := if newer then .queued else .promptSubmitted
      updatedAtEpoch := now
      lastReason := some (if newer then reasonPending else "prompt-accepted") }
    candidate.generation "prompt-accepted" now

def knownFailureReceipt (reason : String)
    (retryAtEpoch now : Int) (receipt : NotificationReceipt) : NotificationReceipt :=
  NotificationReceipt.recordAttempt
    { receipt with
      state := .queued
      nextAttemptAtEpoch := max retryAtEpoch now
      updatedAtEpoch := now
      lastReason := some (safeReason reason)
      lastReasonDetail := none }
    candidate.generation reason now

def unknownReceipt (reason : String) (now : Int)
    (receipt : NotificationReceipt) : NotificationReceipt :=
  NotificationReceipt.recordAttempt
    { receipt with
      state := .attemptUnknown
      updatedAtEpoch := now
      lastReason := some (safeReason reason) }
    candidate.generation reason now

def reconciledAbsentReceipt : NotificationReceipt :=
  { receipt with
    state := .queued
    updatedAtEpoch := now
    nextAttemptAtEpoch := now
    lastReason := some reasonPending }

def undeliverableReceipt (reason : String) (now : Int) (receipt : NotificationReceipt) :
    NotificationReceipt :=
  NotificationReceipt.recordAttempt
    { receipt with
      state := .undeliverable
      updatedAtEpoch := now
      lastReason := some (safeReason reason) }
    receipt.generation reason now

def transitionSubmitted : Option Registry :=
  updateMatching registry candidate (submittedReceipt candidate now)

def transitionKnownFailure (reason : String) (retryAtEpoch now : Int) : Option Registry :=
  updateMatching registry candidate (knownFailureReceipt candidate reason retryAtEpoch now)

def transitionUnknown (reason : String) (now : Int) : Option Registry :=
  updateMatching registry candidate (unknownReceipt candidate reason now)

def transitionReconciledAbsent : Option Registry :=
  updateMatching registry candidate (reconciledAbsentReceipt now)

def transitionUndeliverable (key : NotificationKey) (reason : String)
    (now : Int) : Option Registry :=
  let registry := normalizeRegistry codec now registry
  (registry.notifications.lookup key).map fun receipt =>
    { registry with
      notifications := registry.notifications.insert key (undeliverableReceipt reason now receipt) }

def markUndeliverable (reason : String) (now : Int) : Option Registry :=
  let registry := normalizeRegistry codec now registry
  match registry.notifications.lookup candidate.key with
  | none => none
  | some receipt =>
    if receipt.generation = candidate.generation ∧ receipt.state = .queued then
      transitionUndeliverable codec registry candidate.key reason now
    else none

def knownRefusalCodes : List String :=
  ["auth-quarantined", "codex-account-binding-invalid", "codex-account-binding-missing",
    "codex-account-binding-superseded", "codex-account-next-pending", "codex-account-not-bound",
    "codex-account-unsupported", "coordination-notification-superseded", "serve-task-failed",
    "session-incarnation-conflict", "structured-prompt-outcome-unknown"]

def providerNotReadyDetail (detail : String) : Option String :=
  match splitAt detail ':' with
  | [branch] =>
    if branch ∈ ["notice-writers-disabled", "notice-runtime-unavailable", "notice-not-prepared",
        "prompt-control-unavailable", "notice-attempt-not-admitted", "prompt-submission-refused"]
    then some branch else none
  | "prompt-submission-refused" :: code =>
    if ":".intercalate code ∈ knownRefusalCodes then some detail
    else some "prompt-submission-refused"
  | _ => none

def safeReasonDetail (reason detail : String) : Option String :=
  if reason = "provider-not-ready" then providerNotReadyDetail detail
  else if reason = "recipient-coordination-not-quiescent" ∧
      detail ∈ ["active-claim", "active-operation", "uncertain-operation",
        "broker-not-authoritative", "auth-quarantined", "restart-fenced"] then some detail
  else none

/-- The receipt after `defer_with_detail`. -/
def deferredReceipt (reason : String) (detail : Option String)
    (retryAfterSeconds now : Int) (receipt : NotificationReceipt) : NotificationReceipt :=
  NotificationReceipt.recordAttempt
    { receipt with
      updatedAtEpoch := now
      nextAttemptAtEpoch := i64Add now (max retryAfterSeconds 0)
      lastReason := some (safeReason reason)
      lastReasonDetail := detail }
    candidate.generation reason now

def deferWithDetail (env : Env) (registry : Registry) (candidate : NotificationCandidate)
    (reason : String) (detail : Option String) (retryAfterSeconds now : Int) : Option Registry :=
  let registry := normalizeRegistry codec now registry
  let detail := detail.bind (safeReasonDetail reason)
  match registry.notifications.lookup candidate.key with
  | none => none
  | some receipt =>
    if receipt.generation ≠ candidate.generation ∨ receipt.state ≠ .queued then none
    else if !env.noticeWritersEnabled && reason = "provider-not-ready" &&
        receipt.lastReason = some reason && receipt.lastReasonDetail = detail then none
    else some { registry with
      notifications := registry.notifications.insert candidate.key
        (deferredReceipt candidate reason detail retryAfterSeconds now receipt) }

/-! ## Hook reminders -/

def encodeCounts (sessionId incarnation : String) (now : Int) : String :=
  if hasQuotaPending registry sessionId incarnation now then codec.quotaAlertNotice
  else codec.explainedSummary (registry.messages.filter fun message =>
    message.addressedTo sessionId incarnation && liveUnread now message)

/-- The guard of `claim_hook_reminder`. -/
def hookClaimable : Bool :=
  (receipt.state = .queued ||
    (receipt.state = .undeliverable && receipt.lastReason = some reasonHookDelivered)) &&
    receipt.generation > receipt.notifiedGeneration && due now receipt

def hookClaimed (prompt : String) (now : Int) (receipt : NotificationReceipt) :
    NotificationReceipt :=
  NotificationReceipt.recordAttempt
    { receipt with
      routineLastSubmittedAtEpoch := now
      attemptedPrompt := some prompt
      state := .promptSubmitted
      attemptedGeneration := receipt.generation
      notifiedGeneration := receipt.generation
      attemptedQueuedAtEpoch := receipt.queuedAtEpoch
      attemptedAtEpoch := now
      attemptedAt := some (now * 1000000000)
      attemptedPromptFormat := some noticeFormat
      updatedAtEpoch := now
      lastReason := some "prompt-accepted" }
    receipt.generation "prompt-accepted" now

def claimHookReminder (env : Env) (registry : Registry) (sessionId incarnation : String)
    (now : Int) : Registry × Option Nat :=
  if !env.noticeWritersEnabled then (registry, none)
  else
    let registry := normalizeRegistry codec now registry
    if !hasPendingContent registry sessionId incarnation now then (registry, none)
    else
      let prompt := encodeCounts codec registry sessionId incarnation now
      let key : NotificationKey := .recipient sessionId incarnation
      match registry.notifications.lookup key with
      | none => (registry, none)
      | some receipt =>
        if hookClaimable now receipt && validSecond now then
          ({ registry with
              notifications := registry.notifications.insert key (hookClaimed prompt now receipt) },
            some receipt.generation)
        else (registry, none)

end NilsCli.Coordination
