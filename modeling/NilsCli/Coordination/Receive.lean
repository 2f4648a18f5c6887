import NilsCli.Coordination.Mailbox

/-!
# Receiving federated messages (`remote.rs`)

The destination side of federation. An envelope is validated, answered from its receipt if it was
accepted before, and otherwise admitted like a local message.
-/

namespace NilsCli.Coordination

open Lib

def envelopeVersion : String := "agent-session.remote-message.v1"

def envelopeV2 : String := "agent-session.remote-message.v2"

def serviceWireVersion : String := "agent-session.remote-service-message.v1"

def serviceEnvelopeV2 : String := "agent-session.remote-service-message.v2"

def retainedSecs : Int := 86400

def remoteMessageInvalid : CliError :=
  .dataErr "remote-message-invalid" "remote message envelope is invalid"

def remoteUnavailable : CliError :=
  .runtimeErr "remote-messaging-unavailable" "remote mailbox service is unavailable"

def remoteKeyConflict (message : String) : CliError := .dataErr "idempotency-key-conflict" message

def sessionNotFound (id : String) : CliError :=
  .runtimeErr "session-not-found" ("session not found: " ++ id)

/-- `envelope_version`. -/
def envelopeVersionFor (origin : Origin) (extended : Bool) : String :=
  match origin, extended with
  | .session _, false => envelopeVersion
  | .service _, false => serviceWireVersion
  | .session _, true => envelopeV2
  | .service _, true => serviceEnvelopeV2

def validateBody (body : String) : Except CliError Unit := do
  ensure (body.utf8ByteSize ≤ bodyMaxBytes)
    (.dataErr "mailbox-body-too-large" "coordination message body exceeds 16 KiB")
  ensure (body ≠ "" ∧ ¬ body.toList.any fun c => isControl c && c ∉ ['\n', '\r', '\t'])
    (.dataErr "mailbox-body-invalid" "coordination message body is invalid")

/-- A submission of a service of this machine. -/
structure LocalSubmission where
  origin : ServiceAddress
  key : String
  digest : RequestDigest

structure ReceiveArgs where
  machine : String
  envelope : Envelope
  source : Option LocalSubmission
  /-- `authorize()`. -/
  authorized : Bool
  /-- The journal holds a federated submission under the key of the source. -/
  remoteKeyTaken : Bool

variable (codec : Codec)

variable (env : Env) (envelope : Envelope) (args : ReceiveArgs) (registry : Registry)

def forwardingAdmissible (now : Int) : Bool :=
  envelope.forwarding.all fun provenance =>
    match envelope.sender with
    | .service _ => false
    | .session actor =>
      (provenance.hops.getLast?.any fun hop =>
        hop.forwarder = actor && hop.recipientTransfers.isEmpty) &&
      Provenance.valid codec provenance envelope.recipient envelope.body envelope.expiresAtEpoch
        now

/-- The static checks of `receive_admitted`. -/
def envelopeAdmissible (machine : String) (envelope : Envelope) (now : Int) : Bool :=
  envelope.schemaVersion =
      envelopeVersionFor envelope.sender
        (envelope.category.isSome || envelope.forwarding.isSome) &&
    codec.isUuid envelope.messageId && envelope.recipient.machine = machine &&
    envelope.body ≠ "" && envelope.body.utf8ByteSize ≤ bodyMaxBytes &&
    envelope.bodySha256 = digestBytes envelope.body && envelope.replyDepth ≤ maxReplyDepth &&
    i64Sub envelope.expiresAtEpoch envelope.createdAtEpoch ≤ maxExpirySecs &&
    (envelope.replyByEpoch.all fun deadline =>
      let seconds := i64Sub deadline envelope.createdAtEpoch
      1 ≤ seconds && seconds ≤ maxExpirySecs) &&
    envelope.sender.valid &&
    (match envelope.sender with
      | .service _ => envelope.replyTo.isNone && envelope.replyDepth = 0
      | .session _ => true) &&
    forwardingAdmissible codec envelope now

def receivePrincipal : String := "remote:receive"

/-- The receipt key of an accepted envelope. -/
def receiveKey (messageId : String) : ReceiptKey :=
  ⟨receivePrincipal, "v1", .messageReceive, messageId⟩

def receiveReplay (envelope : Envelope) : Except CliError (Option Outcome) :=
  match idempotencyReplay env registry (receiveKey envelope.messageId) (.receive envelope) with
  | .ok replay => .ok replay
  | .error _ => .error (remoteKeyConflict "message ID has different content")

/-- The receipt key of a local submission. -/
def LocalSubmission.receiptKey (source : LocalSubmission) : ReceiptKey :=
  ⟨codec.servicePrincipal source.origin, source.origin.serviceGeneration, .serviceMessageSubmit,
    source.key⟩

def localReplay (source : Option LocalSubmission) : Except CliError (Option Outcome) :=
  match source with
  | none => .ok none
  | some source => idempotencyReplay env registry (source.receiptKey codec) source.digest

def deliveryReplay : Except CliError (Option Outcome) := do
  match ← localReplay codec env registry args.source with
  | some prior => pure (some prior)
  | none => receiveReplay env registry args.envelope

def receiveObserved : Except CliError (Option Outcome) := do
  ensure (envelopeAdmissible codec args.machine args.envelope env.now) remoteMessageInvalid
  validateBody args.envelope.body
  ensure args.authorized unauthorized
  deliveryReplay codec env args registry

inductive ReceivePlan
  | replay (outcome : Outcome)
  | admission (recipient : SessionRecord) (alertPercent : Nat)

/-- The guards of the last section of `receive_admitted`, on the locked registry. -/
def receivePlan (locked : Registry) : Except CliError ReceivePlan := do
  let now := env.now
  let envelope := args.envelope
  ensure (envelopeAdmissible codec args.machine envelope now) remoteMessageInvalid
  validateBody envelope.body
  ensure (envelope.createdAtEpoch ≤ i64Add now 60 ∧ now < envelope.expiresAtEpoch)
    remoteMessageInvalid
  let recipient ← orErr (env.loadSessionRecord envelope.recipient.sessionId)
    (sessionNotFound envelope.recipient.sessionId)
  ensure (¬ (isServiceSender envelope.sender.storedId ∧
      recipient.id ≠ envelope.recipient.sessionId))
    (.dataErr "message-not-found" "service recipient requires an exact session id")
  ensure args.authorized unauthorized
  match ← localReplay codec env locked args.source with
  | some prior => pure (.replay prior)
  | none =>
    ensure (¬ (args.source.isSome ∧ args.remoteKeyTaken))
      (remoteKeyConflict "service idempotency key belongs to another request")
    match ← receiveReplay env locked envelope with
    | some prior => pure (.replay prior)
    | none =>
      let current ← incarnation recipient
      ensure (current = envelope.recipient.sessionIncarnation)
        (.dataErr "session-incarnation-conflict" "remote recipient was replaced")
      ensure (¬ locked.messages.any fun message => message.messageId = envelope.messageId)
        (remoteKeyConflict "message ID already exists")
      ensure (brokerLive env locked.brokers recipient.id envelope.recipient.sessionIncarnation)
        remoteUnavailable
      let percent ← mailboxAlertPercent env recipient.id
      pure (.admission recipient percent)

/-- The stored message of an accepted envelope. -/
def receivedMessage (recipient : SessionRecord) : StoredMessage where
  messageId := envelope.messageId
  senderSessionId := envelope.sender.storedId
  senderIncarnation := envelope.sender.generation
  recipientSessionId := recipient.id
  recipientIncarnation := envelope.recipient.sessionIncarnation
  state := .unread
  revision := 1
  replyTo := envelope.replyTo
  replyByEpoch := envelope.replyByEpoch
  replySentAtEpoch := none
  replyDepth := envelope.replyDepth
  createdAtEpoch := env.now
  remoteCreatedAtEpoch := some envelope.createdAtEpoch
  createdAtEpochMillis := env.nowMillis
  expiresAtEpoch := envelope.expiresAtEpoch
  terminalAtEpoch := none
  forwardedAtEpoch := none
  category := envelope.category
  notificationSuppressed := false
  forwarding := envelope.forwarding
  resumeCarry := none
  body := envelope.body

def extendReceipt : Registry :=
  { registry with
    receipts := Table.modify (receiveKey envelope.messageId)
      (fun receipt => { receipt with
        expiresAtEpoch := i64Add envelope.expiresAtEpoch retainedSecs }) registry.receipts }

def acceptEnvelope (recipient : SessionRecord) (percent : Nat)
    (registry : Registry) : Except CliError (Registry × Outcome) := do
  let now := env.now
  let envelope := args.envelope
  let (registry, message, projection) ←
    policyAdmit codec env registry (receivedMessage env envelope recipient) now
  let receipt : Outcome := .delivery
    ⟨envelope.messageId, envelope.recipient, now, message.notificationSuppressed⟩
  let registry := { registry with messages := registry.messages ++ [message] }
  let (registry, signalled) := quotaAdmitted codec registry recipient.id
    envelope.recipient.sessionIncarnation percent now
  let registry ← storeReceipt codec registry (receiveKey envelope.messageId) (.receive envelope)
    receipt now
  let registry := extendReceipt envelope registry
  match args.source with
  | none => pure (registry, receipt)
  | some source =>
    let outcome : Outcome := .message (metadata message) (some (signalled.getD projection))
    let registry ←
      storeReceipt codec registry (source.receiptKey codec) source.digest outcome now
    pure (registry, outcome)

/-- The last section of `receive_admitted`. -/
def receive : Registry × Except CliError Outcome :=
  let now := env.now
  let envelope := args.envelope
  match receivePlan codec env args registry with
  | .error error => (registry, .error error)
  | .ok (.replay outcome) => (registry, .ok outcome)
  | .ok (.admission recipient percent) =>
    let locked := rearmQuota registry recipient.id percent now
    match admitMessage locked envelope.sender.storedId recipient.id envelope.body.utf8ByteSize
        envelope.replyTo now env.nowMillis with
    | (locked, .error error) =>
      if error.code = "quota-exceeded" then
        (quotaRejected codec locked envelope.sender
          { envelope.recipient with sessionId := recipient.id } envelope.category now,
          .error error)
      else (registry, .error error)
    | (locked, .ok ()) => commit registry (acceptEnvelope codec env args recipient percent locked)

end NilsCli.Coordination
