import NilsCli.Coordination.Forwarding
import NilsCli.Coordination.Maintenance

/-!
# The mailbox (`mailbox.rs`, `mailbox_quota.rs`, `notification_policy.rs`)

A message is admitted against the rate and the quotas of its recipient, schedules a wake-up under
the recipient's policy, and is stored together with the sender's receipt.
-/

namespace NilsCli.Coordination

open Lib

variable (registry : Registry) (recipient : String)

def maxSessionMessages : Nat := 256

def maxSessionBytes : Nat := 4 * 1024 * 1024

def maxRegistryBytes : Nat := 68 * 1024 * 1024

def bodyMaxBytes : Nat := 16 * 1024

def pairRatePerMinute : Nat := 30

def pairBurst : Nat := 10

def maxReplyDepth : Nat := 16

def maxQuotaEvents : Nat := 256

def maxRecipientQuotaEvents : Nat := 32

def quotaSignalSecs : Int := 24 * 60 * 60

def messageNotFound : CliError :=
  .dataErr "message-not-found" "coordination message was not found"

def messageExpired : CliError := .dataErr "message-expired" "coordination message has expired"

def messageRevisionConflict : CliError :=
  .dataErr "message-revision-conflict" "message revision fence did not match"

/-- What a section saves and returns: a failed body leaves the registry it started from. -/
def commit (body : Except CliError (Registry × Outcome)) : Registry × Except CliError Outcome :=
  match body with
  | .ok (registry, outcome) => (registry, .ok outcome)
  | .error error => (registry, .error error)

def metadata (message : StoredMessage) : MessageMetadata where
  category := message.category.getD .uncategorized
  notificationSuppressed := message.notificationSuppressed
  forwarding := message.forwarding
  resumeCarry := message.resumeCarry.map fun carry => (carry.carryCount, carry.carriedAtEpoch)
  messageId := message.messageId
  sender := message.senderSessionId
  senderIncarnation := match message.senderSessionId with
    | .session _ => none
    | .remote _ _ | .service _ _ => some message.senderIncarnation
  recipientSessionId := message.recipientSessionId
  state := message.state
  revision := message.revision
  replyTo := message.replyTo
  replyByEpoch := message.replyByEpoch
  createdAtEpoch := message.createdAtEpoch
  expiresAtEpoch := message.expiresAtEpoch
  bodyBytes := message.bodyBytes

/-! ## Admission -/

/-- Neither terminal nor expired. -/
def countsTowardQuota (now : Int) (message : StoredMessage) : Bool :=
  !message.state.terminal && message.expiresAtEpoch > now

def liveFor (now : Int) : List StoredMessage :=
  registry.messages.filter fun message =>
    message.recipientSessionId = recipient && countsTowardQuota now message

def registryMessageBytes : Nat :=
  ((registry.messages.filter fun message => message.state ≠ .deleted).map (·.bodyBytes)).sum

/-- The ids that `evict_terminal_messages` drops until the total and the new body fit. -/
def terminalEvictionPlan (bodyBytes : Nat) : Nat → List StoredMessage → List String
  | _, [] => []
  | total, message :: rest =>
    if total + bodyBytes ≤ maxRegistryBytes then []
    else message.messageId :: terminalEvictionPlan bodyBytes (total - message.bodyBytes) rest

/-- Drops acknowledged and expired mail, oldest first, until the new body fits. -/
def evictTerminalMessages (bodyBytes : Nat) (keep : Option String) : Registry :=
  let terminal := terminalHistory (registry.messages.filter fun message =>
    (message.state = .acknowledged || message.state = .expired) &&
      some message.messageId ≠ keep)
  let evicted := terminalEvictionPlan bodyBytes (registryMessageBytes registry) terminal
  { registry with
    messages := registry.messages.filter fun message => message.messageId ∉ evicted
    notifications := Table.filter (fun key _ => !key.names evicted) registry.notifications }

/-- The messages between a pair that `p` counts. -/
def pairCount (sender : SenderId) (recipient : String) (p : StoredMessage → Bool) : Nat :=
  (registry.messages.filter fun message =>
    message.senderSessionId = sender && message.recipientSessionId = recipient &&
      p message).length

/-- `admit_message`, with the registry it leaves. -/
def admitMessage (sender : SenderId) (recipient : String) (bodyBytes : Nat)
    (keep : Option String) (now nowMillis : Int) : Registry × Except CliError Unit :=
  let refuse := fun (quota : String) (count limit : Nat) =>
    (.error (quotaExceeded "coordination mailbox quota exceeded" quota count limit) :
      Except CliError Unit)
  if pairCount registry sender recipient (fun message =>
      message.createdAtEpoch > i64Sub now 60) ≥ pairRatePerMinute then
    (registry, .error (.dataErr "rate-limited" "coordination message rate limit exceeded"))
  else if pairCount registry sender recipient (fun message =>
      message.createdAtEpochMillis > i64Sub nowMillis 1000) ≥ pairBurst then
    (registry, .error (.dataErr "rate-limited" "coordination message burst limit exceeded"))
  else
    let live := liveFor registry recipient now
    let bytes := (live.map (·.bodyBytes)).sum + bodyBytes
    let registry :=
      if registryMessageBytes registry + bodyBytes > maxRegistryBytes then
        evictTerminalMessages registry bodyBytes keep
      else registry
    let total := registryMessageBytes registry + bodyBytes
    if live.length ≥ maxSessionMessages then
      (registry, refuse "recipient-messages" live.length maxSessionMessages)
    else if bytes > maxSessionBytes then (registry, refuse "recipient-bytes" bytes maxSessionBytes)
    else if total > maxRegistryBytes then
      (registry, refuse "registry-message-bytes" total maxRegistryBytes)
    else (registry, .ok ())

/-! ## Quota signals -/

def aboveQuota (percent : Nat) (now : Int) : Bool :=
  let live := liveFor registry recipient now
  live.length ≥ (maxSessionMessages * percent + 99) / 100 ||
    (live.map (·.bodyBytes)).sum ≥ (maxSessionBytes * percent + 99) / 100

/-- The threshold flag of a receipt's quota state. -/
def setAboveThreshold (above : Bool) (receipt : NotificationReceipt) : NotificationReceipt :=
  { receipt with quota := receipt.quota.map fun quota => { quota with aboveThreshold := above } }

/-- `rearm`. -/
def rearmQuota (percent : Nat) (now : Int) : Registry :=
  if aboveQuota registry recipient percent now then registry
  else { registry with
    notifications := Table.mapVal (fun _ receipt =>
      if receipt.targetSessionId = recipient then setAboveThreshold false receipt else receipt)
      registry.notifications }

variable (codec : Codec)

variable (env : Env) (registry : Registry) (sessionId : String) (message : StoredMessage)

/-- The quota signal on a scheduled receipt. -/
def signalReceipt (now : Int) (receipt : NotificationReceipt) : NotificationReceipt :=
  { receipt with
    quota := some
      { aboveThreshold := (receipt.quota.map (·.aboveThreshold)).getD false
        signalGeneration := receipt.generation
        signalExpiresAtEpoch := i64Add now quotaSignalSecs }
    urgentGeneration := receipt.generation
    prompt := some codec.quotaAlertNotice }

/-- `signal`. -/
def signalQuota (incarnation : String) (now : Int) : Registry :=
  let registry := (schedule codec registry sessionId incarnation now).1
  { registry with
    notifications := Table.modify (.recipient sessionId incarnation) (signalReceipt codec now)
      registry.notifications }

def keepNewestOf (recipient : String) : Nat → List QuotaRejection → List QuotaRejection
  | _, [] => []
  | limit, event :: rest =>
    if event.recipient.sessionId ≠ recipient then event :: keepNewestOf recipient limit rest
    else
      match limit with
      | 0 => keepNewestOf recipient 0 rest
      | limit + 1 => event :: keepNewestOf recipient limit rest

/-- `rejected`. -/
def quotaRejected (sender : Origin) (recipient : Address)
    (category : Option MessageCategory) (now : Int) : Registry :=
  let events := registry.quotaRejections ++
    [⟨sender, recipient, category.getD .uncategorized, now⟩]
  let events :=
    (keepNewestOf recipient.sessionId maxRecipientQuotaEvents events.reverse).reverse
  signalQuota codec
    { registry with quotaRejections := events.drop (events.length - maxQuotaEvents) }
    recipient.sessionId recipient.sessionIncarnation now

def quotaAdmitted (incarnation : String) (percent : Nat)
    (now : Int) : Registry × Option NotificationProjection :=
  let key : NotificationKey := .recipient sessionId incarnation
  if !aboveQuota registry sessionId percent now then (registry, none)
  else if (registry.notifications.lookup key).any fun receipt =>
      receipt.quota.any (·.aboveThreshold) then (registry, none)
  else
    let registry := signalQuota codec registry sessionId incarnation now
    let registry := { registry with
      notifications := Table.modify key (setAboveThreshold true) registry.notifications }
    let registry := normalizeRegistry codec now registry
    (registry, (registry.notifications.lookup key).map projection)

/-! ## Notification policy -/

def urgent : Bool :=
  message.category = some .blocker || message.category = some .decision ||
    match message.senderSessionId with
    | .service _ _ => true
    | _ => false

/-- `coalescing::admit` on the scheduled receipt. -/
def coalesce (interval now : Int) (receipt : NotificationReceipt) : NotificationReceipt :=
  if interval = 0 then { receipt with routineIntervalSeconds := 0, prompt := none }
  else
    let unread := registry.messages.filter fun item =>
      item.addressedTo message.recipientSessionId message.recipientIncarnation &&
        liveUnread now item
    { receipt with
      routineIntervalSeconds := interval
      urgentGeneration := if urgent message then receipt.generation else receipt.urgentGeneration
      prompt := some (codec.unreadPrompt (unread.length + 1)) }

def isServiceSender : SenderId → Bool
  | .service _ _ => true
  | .session _ | .remote _ _ => false

def policyInvalid : CliError :=
  .dataErr "notification-policy-invalid"
    "destination notification policy is invalid or untrusted"

def suppressedProjection : NotificationProjection :=
  ⟨none, 0, 0, some "recipient-category-policy", false⟩

/-- `notification_policy::admit`: suppresses or schedules the wake-up of a new message. -/
def policyAdmit (now : Int) :
    Except CliError (Registry × StoredMessage × NotificationProjection) := do
  let (suppressed, interval, _) ← orErr (env.notificationPolicy message.recipientSessionId
    (message.category.getD .uncategorized)) policyInvalid
  let message := { message with
    notificationSuppressed := suppressed && !isServiceSender message.senderSessionId }
  if message.notificationSuppressed then pure (registry, message, suppressedProjection)
  else
    let (registry, projection) := schedule codec registry message.recipientSessionId
      message.recipientIncarnation now
    let registry := { registry with
      notifications := Table.modify
        (.recipient message.recipientSessionId message.recipientIncarnation)
        (coalesce codec registry message interval now) registry.notifications }
    pure (registry, message, projection)

def mailboxAlertPercent : Except CliError Nat := do
  let (_, _, percent) ← orErr (env.notificationPolicy sessionId .uncategorized) policyInvalid
  pure percent

def recordReply (parent : Option String) (now : Int) : Registry :=
  match parent with
  | none => registry
  | some parent => { registry with
      messages := updateFirst (fun message => message.messageId = parent) (fun message =>
        if message.replyByEpoch.isSome && message.replySentAtEpoch.isNone then
          { message with replySentAtEpoch := some now } else message) registry.messages }

/-! ## Sending -/

/-- The requests that `send_authenticated` serves. -/
inductive SendKind
  | send
  | reply
  | forward

def SendKind.operation : SendKind → Operation
  | .send => .messageSend
  | .reply => .messageReply
  | .forward => .messageForward

structure SendArgs where
  kind : SendKind
  senderId : String
  senderIncarnation : String
  recipientId : String
  body : String
  replyTo : Option String
  expirySecs : Int
  replyBySecs : Option Int
  idempotencyKey : String
  explicitReplyDepth : Option Nat
  expectedRecipientIncarnation : Option String
  expectedParentRevision : Option Nat
  category : Option MessageCategory
  forward : Option ForwardRequest
  digest : RequestDigest

def SendArgs.receiptKey (args : SendArgs) : ReceiptKey :=
  ⟨args.senderId, args.senderIncarnation, args.kind.operation, args.idempotencyKey⟩

/-- The depth of a reply, or `0`. -/
def replyDepth (registry : Registry) (args : SendArgs)
    (recipientId recipientIncarnation : String) (now : Int) : Except CliError Nat :=
  match args.replyTo with
  | none => .ok 0
  | some parentId => do
    let parent ← orErr (registry.messages.find? fun message =>
      message.messageId = parentId && message.addressedTo args.senderId args.senderIncarnation)
      messageNotFound
    ensure (parent.state ≠ .expired ∧ now < parent.expiresAtEpoch) messageExpired
    ensure (args.expectedParentRevision.all fun revision => parent.revision = revision)
      messageRevisionConflict
    ensure (parent.senderSessionId = .session recipientId ∧
      parent.senderIncarnation = recipientIncarnation) messageNotFound
    let depth := args.explicitReplyDepth.getD (parent.replyDepth + 1)
    ensure (depth ≤ maxReplyDepth)
      (.dataErr "reply-depth-exceeded" "message reply depth limit exceeded")
    pure depth

inductive SendPlan
  | replay (outcome : Outcome)
  | admission (recipient : SessionRecord) (recipientIncarnation : String)
      (forwarding : Option Provenance) (expiryEpoch : Int) (category : Option MessageCategory)
      (alertPercent : Nat)

/-- What a forwarded message takes from its source: provenance, expiry and category. -/
def forwardPlan (args : SendArgs) (request : ForwardRequest) (recipient : Address)
    (locked : Registry) : Except CliError (Provenance × Int × Option MessageCategory) := do
  let actor : Address := ⟨env.machine, args.senderId, args.senderIncarnation⟩
  let source ← forwardSource locked actor request env.now
  ensure (source.body = args.body)
    (.dataErr "message-forward-invalid" "forward source body changed")
  let provenance ← appendHop codec source actor recipient env.now
  pure (provenance, source.expiresAtEpoch, source.category)

/-- The guards of the last section of `send_authenticated`, on the cleaned registry. -/
def sendPlan (args : SendArgs) (locked : Registry) : Except CliError SendPlan := do
  let now := env.now
  let recipient ← orErr (env.loadSessionRecord args.recipientId) messageNotFound
  let recipientIncarnation ← orErr (incarnation recipient).toOption messageNotFound
  ensure (args.expectedRecipientIncarnation.all fun expected => expected = recipientIncarnation)
    (.dataErr "session-incarnation-conflict" "message target session was replaced")
  ensure (env.capabilityRevalidated args.senderId args.senderIncarnation) unauthorized
  match ← idempotencyReplay env locked args.receiptKey args.digest with
  | some replay => pure (.replay replay)
  | none =>
    ensure (brokerLive env locked.brokers recipient.id recipientIncarnation)
      (.runtimeErr "coordination-unavailable" "recipient coordination broker is unavailable")
    let (forwarding, expiryEpoch, category) ← match args.forward with
      | none => pure (none, i64Add now args.expirySecs, args.category)
      | some request => do
        let (provenance, expiryEpoch, category) ← forwardPlan codec env args request
          ⟨env.machine, recipient.id, recipientIncarnation⟩ locked
        pure (some provenance, expiryEpoch, category)
    let alertPercent ← mailboxAlertPercent env recipient.id
    pure (.admission recipient recipientIncarnation forwarding expiryEpoch category alertPercent)

/-- Admits the message, signals a nearly full mailbox and stores the receipt. -/
def deliver (percent : Nat)
    (key : ReceiptKey) (digest : RequestDigest) : Except CliError (Registry × Outcome) := do
  let now := env.now
  let (registry, message, projection) ← policyAdmit codec env registry message now
  let registry := recordReply registry message.replyTo now
  let registry := { registry with messages := registry.messages ++ [message] }
  let (registry, signalled) := quotaAdmitted codec registry message.recipientSessionId
    message.recipientIncarnation percent now
  let outcome : Outcome := .message (metadata message) (some (signalled.getD projection))
  let registry ← storeReceipt codec registry key digest outcome now
  pure (registry, outcome)

/-- The last section of `send_authenticated`: `message-send`, `-reply` and `-forward`. -/
def send (env : Env) (args : SendArgs) (registry : Registry) :
    Registry × Except CliError Outcome :=
  let now := env.now
  let locked := cleanExpired env now registry
  match sendPlan codec env args locked with
  | .error error => (registry, .error error)
  | .ok (.replay outcome) => (registry, .ok outcome)
  | .ok (.admission recipient recipientIncarnation forwarding expiryEpoch category percent) =>
    let locked := rearmQuota locked recipient.id percent now
    match admitMessage locked (.session args.senderId) recipient.id args.body.utf8ByteSize
        args.replyTo now env.nowMillis with
    | (locked, .error error) =>
      if error.code = "quota-exceeded" then
        (quotaRejected codec locked
          (.session ⟨env.machine, args.senderId, args.senderIncarnation⟩)
          ⟨env.machine, recipient.id, recipientIncarnation⟩ category now, .error error)
      else (registry, .error error)
    | (locked, .ok ()) =>
      commit registry do
        let depth ← replyDepth locked args recipient.id recipientIncarnation now
        deliver codec env locked
          { messageId := env.uuid
            senderSessionId := .session args.senderId
            senderIncarnation := args.senderIncarnation
            recipientSessionId := recipient.id
            recipientIncarnation := recipientIncarnation
            state := .unread
            revision := 1
            replyTo := args.replyTo
            replyByEpoch := args.replyBySecs.map fun seconds => i64Add now seconds
            replySentAtEpoch := none
            replyDepth := depth
            createdAtEpoch := now
            remoteCreatedAtEpoch := none
            createdAtEpochMillis := env.nowMillis
            expiresAtEpoch := expiryEpoch
            terminalAtEpoch := none
            forwardedAtEpoch := none
            category := category
            notificationSuppressed := false
            forwarding := forwarding
            resumeCarry := none
            body := args.body } percent args.receiptKey args.digest

/-! ## Reading -/

structure MessageArgs where
  sessionId : String
  incarnation : String
  message : String

/-- The message that a recipient names. -/
def MessageArgs.names (args : MessageArgs) (message : StoredMessage) : Bool :=
  message.messageId = args.message && message.addressedTo args.sessionId args.incarnation

/-- An unread message that is shown is read. -/
def readMessage : StoredMessage :=
  if message.state = .unread then
    { message with state := .read, revision := u64Succ message.revision }
  else message

/-- `show`. -/
def showMessage (args : MessageArgs) (registry : Registry) :
    Except CliError (Registry × Outcome) := do
  let locked := cleanExpired env env.now registry
  ensure (env.capabilityRevalidated args.sessionId args.incarnation) unauthorized
  let message ← orErr (locked.messages.find? args.names) messageNotFound
  ensure (message.state ≠ .expired) messageExpired
  pure ({ locked with messages := updateFirst args.names readMessage locked.messages },
    .message (metadata (readMessage message)) none)

/-- An acknowledged message. -/
def acknowledgeMessage (now : Int) (message : StoredMessage) : StoredMessage :=
  { message with
    state := .acknowledged
    revision := u64Succ message.revision
    terminalAtEpoch := some now }

/-- The recipient is done with a message. -/
def ack (env : Env) (args : MessageArgs) (ifRevision : Nat) (idempotencyKey : String)
    (registry : Registry) : Except CliError (Registry × Outcome) := do
  let now := env.now
  let locked := cleanExpired env now registry
  ensure (env.capabilityRevalidated args.sessionId args.incarnation) unauthorized
  let key : ReceiptKey := ⟨args.sessionId, args.incarnation, .messageAck, idempotencyKey⟩
  let digest : RequestDigest := .ack args.message ifRevision
  match ← idempotencyReplay env locked key digest with
  | some replay => pure (registry, replay)
  | none =>
    let message ← orErr (locked.messages.find? args.names) messageNotFound
    ensure (message.state ≠ .expired) messageExpired
    ensure (message.revision = ifRevision) messageRevisionConflict
    let locked := { locked with
      messages := updateFirst args.names (acknowledgeMessage now) locked.messages }
    let outcome : Outcome := .message (metadata (acknowledgeMessage now message)) none
    let locked ← storeReceipt codec locked key digest outcome now
    pure (locked, outcome)

def drainedResolvable (incarnation : String) (now : Int) : Bool :=
  !hasPendingContent registry sessionId incarnation now &&
    (registry.notifications.lookup (.recipient sessionId incarnation)).any fun receipt =>
      receipt.state ≠ .attempting && receipt.generation ≠ 0 &&
        receipt.lastReason ≠ some reasonDrained

def reminder (env : Env) (sessionId incarnation agent : String) (registry : Registry) :
    Except CliError (Registry × Outcome) := do
  let now := env.now
  let locked := cleanExpired env now registry
  ensure (env.capabilityRevalidated sessionId incarnation) unauthorized
  let resolved := drainedResolvable locked sessionId incarnation now
  let locked := resolveDrainedGeneration locked sessionId incarnation now
  let (locked, claimed) :=
    if agent = "codex" && !env.noticeWritersEnabled then (locked, none)
    else claimHookReminder codec env locked sessionId incarnation now
  pure (if claimed.isSome || resolved then locked else registry, .reminder claimed)

/-! ## Resume -/

def persistedBefore (sessionCreatedMillis : Int) : Bool :=
  if message.createdAtEpochMillis > 0 then message.createdAtEpochMillis < sessionCreatedMillis
  else message.createdAtEpoch < sessionCreatedMillis / 1000

def carriedMessage (machine sessionId previous current : String) (createdMillis now : Int)
    (message : StoredMessage) : Option StoredMessage :=
  if message.recipientSessionId ≠ sessionId || message.recipientIncarnation ≠ previous ||
      message.state ≠ .unread || message.expiresAtEpoch ≤ now ||
      persistedBefore message createdMillis then none
  else
    (recordResumeTransfer codec message machine current now).map fun forwarding =>
      { message with
        forwarding := forwarding
        resumeCarry := some
          { originalRecipientIncarnation :=
              (message.resumeCarry.map (·.originalRecipientIncarnation)).getD previous
            fromIncarnation := previous
            carryCount := (message.resumeCarry.map fun carry => carry.carryCount + 1).getD 1
            carriedAtEpoch := now }
        recipientIncarnation := current
        revision := u64Succ message.revision }

def carryUnreadAfterVerifiedResume (machine : String) (registry : Registry) (sessionId : String)
    (createdMillis : Option Int) (previous current : String) (now : Int) : Registry :=
  if previous = current then registry
  else
    match createdMillis with
    | none => registry
    | some createdMillis =>
      let carried := carriedMessage codec machine sessionId previous current createdMillis now
      let notify := registry.messages.any fun message =>
        (carried message).isSome && !message.notificationSuppressed
      let registry := { registry with
        messages := registry.messages.map fun message => (carried message).getD message }
      if notify then (schedule codec registry sessionId current now).1 else registry

end NilsCli.Coordination
