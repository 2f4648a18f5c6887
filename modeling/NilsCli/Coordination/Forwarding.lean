import NilsCli.Lib.Guard
import NilsCli.Lib.Text
import NilsCli.Coordination.Registry

/-!
# Forwarding provenance (`forwarding.rs`)

A forwarded message carries the chain of its forwarders. The chain is bounded, visits no session
twice, and each recipient in it may have moved between incarnations of its own session.
-/

namespace NilsCli.Coordination

open Lib

def maxHops : Nat := 8

def maxRecipientTransfers : Nat := 8

def maxExpirySecs : Int := 7 * 24 * 60 * 60

def validSelector (value : String) : Bool :=
  value ≠ "" && value.utf8ByteSize ≤ 128 && value.toList.all fun c =>
    isAsciiLower c || isAsciiUpper c || isAsciiDigit c || c = '-' || c = '_' || c = '.'

def Address.valid (address : Address) : Bool :=
  address.machine ≠ "" && address.sessionId ≠ "" && address.sessionIncarnation ≠ ""

def Origin.valid : Origin → Bool
  | .session address => address.valid
  | .service address => address.machine ≠ "" && validSelector address.serviceId &&
      validSelector address.serviceGeneration

def Origin.generation : Origin → String
  | .session address => address.sessionIncarnation
  | .service address => address.serviceGeneration

def Origin.storedId : Origin → SenderId
  | .session address => .remote address.machine address.sessionId
  | .service address => .service address.machine address.serviceId

def senderOrigin (message : StoredMessage) (machine : String) : Origin :=
  match message.senderSessionId with
  | .session id => .session ⟨machine, id, message.senderIncarnation⟩
  | .remote machine id => .session ⟨machine, id, message.senderIncarnation⟩
  | .service machine id => .service ⟨machine, id, message.senderIncarnation⟩

def sameSession (left right : Address) : Bool :=
  left.machine = right.machine && left.sessionId = right.sessionId

/-- The loop state of `Provenance::valid`. -/
structure ChainState where
  previous : Address
  participants : List Address
  previousTime : Int
  priorTransfer : Option RecipientTransfer

variable (codec : Codec)

def transferStep (hop : Hop) (now : Int) (state : ChainState) (transfer : RecipientTransfer) :
    Option ChainState :=
  if transfer.sender = state.previous && transfer.sender.valid && transfer.recipient.valid &&
      transfer.controller.valid && sameSession transfer.sender transfer.recipient &&
      transfer.sender.sessionIncarnation ≠ transfer.recipient.sessionIncarnation &&
      (transfer.controller = hop.forwarder || transfer.controller = transfer.sender) &&
      transfer.controller.machine = transfer.sender.machine && codec.isUuid transfer.messageId &&
      transfer.sourceRevision ≠ 0 &&
      (state.priorTransfer.all fun prior => prior.messageId = transfer.messageId &&
        prior.sourceRevision < transfer.sourceRevision) &&
      state.previousTime ≤ transfer.transferredAtEpoch &&
      transfer.transferredAtEpoch ≤ i64Add now 60 then
    some { state with
      previous := transfer.recipient
      previousTime := transfer.transferredAtEpoch
      priorTransfer := some transfer }
  else none

/-- One hop continues the chain; `first` is the id that the first hop must forward. -/
def hopStep (first : Option String) (now : Int) (state : ChainState) (hop : Hop) :
    Option ChainState :=
  if hop.forwarder = state.previous &&
      (state.priorTransfer.all fun transfer => transfer.messageId = hop.sourceMessageId &&
        transfer.sourceRevision < hop.sourceRevision) &&
      hop.forwarder.valid && hop.recipient.valid && hop.sourceRevision ≠ 0 &&
      codec.isUuid hop.sourceMessageId && (first.all fun id => hop.sourceMessageId = id) &&
      state.previousTime ≤ hop.forwardedAtEpoch && hop.forwardedAtEpoch ≤ i64Add now 60 &&
      !(state.participants.any fun participant => sameSession participant hop.recipient) then
    hop.recipientTransfers.foldlM (transferStep codec hop now)
      { previous := hop.recipient
        participants := state.participants ++ [hop.recipient]
        previousTime := hop.forwardedAtEpoch
        priorTransfer := none }
  else none

/-- The hops of a provenance continue one another. -/
def chain (provenance : Provenance) (now : Int) : Option ChainState :=
  let participants := provenance.originalRecipient ::
    match provenance.originalSender with
    | .session sender => [sender]
    | .service _ => []
  let start : ChainState :=
    ⟨provenance.originalRecipient, participants, provenance.originalCreatedAtEpoch, none⟩
  match provenance.hops with
  | [] => none
  | hop :: hops => do
    let state ← hopStep codec (some provenance.originalMessageId) now start hop
    hops.foldlM (hopStep codec none now) state

def Provenance.valid (provenance : Provenance) (destination : Address) (body : String)
    (expiry now : Int) : Bool :=
  provenance.attestation = "forwarder" && provenance.originalSender.valid &&
    provenance.originalRecipient.valid && codec.isUuid provenance.originalMessageId &&
    provenance.bodySha256 = digestBytes body &&
    provenance.originalCreatedAtEpoch < provenance.originalExpiresAtEpoch &&
    i64Sub provenance.originalExpiresAtEpoch provenance.originalCreatedAtEpoch ≤ maxExpirySecs &&
    expiry ≤ provenance.originalExpiresAtEpoch && provenance.hops.length ≤ maxHops &&
    (provenance.hops.map fun hop => hop.recipientTransfers.length).sum ≤ maxRecipientTransfers &&
    (chain codec provenance now).any fun state => state.previous = destination

def forwardInvalid : CliError :=
  .dataErr "message-forward-invalid" "forward provenance is invalid"

/-- The last hop with a transfer appended. -/
def addTransfer (transfer : RecipientTransfer) : List Hop → List Hop
  | [] => []
  | [hop] => [{ hop with recipientTransfers := hop.recipientTransfers ++ [transfer] }]
  | hop :: hops => hop :: addTransfer transfer hops

def recordResumeTransfer (message : StoredMessage) (machine currentIncarnation : String)
    (now : Int) : Option (Option Provenance) :=
  match message.forwarding with
  | none => some none
  | some existing =>
    let sender : Address := ⟨machine, message.recipientSessionId, message.recipientIncarnation⟩
    let recipient : Address := { sender with sessionIncarnation := currentIncarnation }
    if sender = recipient || !existing.valid codec sender message.body message.expiresAtEpoch now ||
        (existing.hops.map fun hop => hop.recipientTransfers.length).sum ≥ maxRecipientTransfers ||
        (existing.hops.getLast?.all fun hop => hop.recipientTransfers.getLast?.any fun transfer =>
          transfer.messageId ≠ message.messageId) then none
    else
      let audit := { existing with
        hops := addTransfer ⟨message.messageId, sender, recipient, sender, message.revision, now⟩
          existing.hops }
      if audit.valid codec recipient message.body message.expiresAtEpoch now then some (some audit)
      else none

structure ForwardRequest where
  message : String
  ifRevision : Nat
  categories : List MessageCategory

/-- `forwarding::source`. -/
def forwardSource (registry : Registry) (actor : Address) (request : ForwardRequest)
    (now : Int) : Except CliError StoredMessage := do
  let message ← orErr (registry.messages.find? fun message =>
      message.messageId = request.message && message.recipientSessionId = actor.sessionId &&
        message.recipientIncarnation = actor.sessionIncarnation)
    (.dataErr "message-not-found" "received message does not exist")
  ensure (message.state ≠ .expired ∧ message.state ≠ .quarantined ∧ now < message.expiresAtEpoch)
    (.dataErr "message-expired" "forward source is unavailable")
  ensure (message.revision = request.ifRevision)
    (.dataErr "message-revision-conflict" "forward source revision changed")
  ensure (request.categories = [] ∨ message.category.getD .uncategorized ∈ request.categories)
    (.dataErr "message-category-conflict" "forward source category does not match")
  ensure (¬ message.forwarding.any fun provenance =>
      (provenance.hops.getLast?.bind fun hop => hop.recipientTransfers.getLast?).any fun transfer =>
        transfer.messageId ≠ message.messageId || transfer.sourceRevision ≥ message.revision)
    forwardInvalid
  pure message

/-- `forwarding::append`. -/
def appendHop (message : StoredMessage) (actor destination : Address) (now : Int) :
    Except CliError Provenance := do
  let provenance := message.forwarding.getD
    { attestation := "forwarder"
      originalMessageId := message.messageId
      originalSender := senderOrigin message actor.machine
      originalRecipient := actor
      originalCreatedAtEpoch := message.remoteCreatedAtEpoch.getD message.createdAtEpoch
      originalExpiresAtEpoch := message.expiresAtEpoch
      bodySha256 := digestBytes message.body
      hops := [] }
  ensure (provenance.hops.length < maxHops)
    (.dataErr "message-forward-depth-exceeded" "forward hop limit exceeded")
  let visited : Bool := sameSession actor destination ||
    sameSession provenance.originalRecipient destination ||
    (match provenance.originalSender with
      | .session sender => sameSession sender destination
      | .service _ => false) ||
    provenance.hops.any fun hop => sameSession hop.recipient destination
  ensure (¬ visited)
    (.dataErr "message-forward-loop" "forward destination is a prior participant")
  let provenance := { provenance with
    hops := provenance.hops ++
      [⟨message.messageId, message.revision, actor, destination, now, []⟩] }
  ensure (provenance.valid codec destination message.body message.expiresAtEpoch now)
    forwardInvalid
  pure provenance

end NilsCli.Coordination
