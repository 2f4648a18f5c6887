import NilsCli.Coordination.Posts

/-!
# What a section can do

The sections of the system change the registry by few kinds of moves.
-/

namespace NilsCli.Coordination

open Lib

inductive LeaseStep (renews pends : OperationLease → Prop) : OperationLease → OperationLease → Prop
  | stay (x : OperationLease) : LeaseStep renews pends x x
  | renew {x : OperationLease} (h : x.nonterminal) (hr : renews x) (expires : Int) :
      LeaseStep renews pends x
        { x with state := .active, reconcileObservedAtEpoch := none, expiresAtEpoch := expires }
  | expire {x : OperationLease} (h : x.state = .active) :
      LeaseStep renews pends x { x with state := .completing, revision := u64Succ x.revision }
  | pend {x : OperationLease} (h : x.nonterminal) (hp : pends x) (now : Int) :
      LeaseStep renews pends x (pendingLease now x)
  | finish {x : OperationLease} (h : x.nonterminal) (state : LeaseState) (hs : ¬ state.nonterminal)
      (outcome : Option LeaseOutcome) (observed : Option Int) (now : Int) :
      LeaseStep renews pends x
        { x with
          state := state
          revision := u64Succ x.revision
          outcome := outcome
          terminalAtEpoch := some now
          reconcileObservedAtEpoch := observed }
  | stamp {x : OperationLease} (h : ¬ x.nonterminal) (now : Int) :
      LeaseStep renews pends x { x with terminalAtEpoch := some now }

/-- One change of a claim. -/
inductive ClaimStep : WorkContextRecord → WorkContextRecord → Prop
  | stay (x : WorkContextRecord) : ClaimStep x x
  | renew {x : WorkContextRecord} (h : x.state = .active) (revision : Nat) (updated expires : Int) :
      ClaimStep x
        { x with revision := revision, updatedAtEpoch := updated, expiresAtEpoch := expires }
  | finish {x : WorkContextRecord} (h : x.state = .active) (state : ClaimState)
      (hs : state ≠ .active) (revision : Nat) (updated now : Int) :
      ClaimStep x
        { x with
          state := state
          revision := revision
          updatedAtEpoch := updated
          terminalAtEpoch := some now }
  | stamp {x : WorkContextRecord} (h : x.state ≠ .active) (now : Int) :
      ClaimStep x { x with terminalAtEpoch := some now }

/-! ## Moves -/

def Undrained (registry : Registry) (lease : OperationLease) : Prop :=
  ∀ event ∈ registry.completionEvents, event.names lease → ¬ event.accepts lease

def ReceiptFree (env : Env) (registry : Registry) (key : ReceiptKey) : Prop :=
  ∀ receipt, registry.receipts.lookup key = some receipt → receipt.expiresAtEpoch ≤ env.replayNow

/-- The broker of the session is this incarnation. -/
def BrokerIs (brokers : Table String BrokerRecord) (sessionId incarnation : String) : Prop :=
  ∃ broker, brokers.lookup sessionId = some broker ∧ broker.incarnation = incarnation

/-- The claim lists the repository of each of its scopes, in the schema of this release. -/
structure WorkContextRecord.WellFormed (claim : WorkContextRecord) : Prop where
  schema : claim.schemaVersion = workContextVersion
  repositories : ∀ scope ∈ claim.scopes, scope.repository ∈ claim.repositories

def Conflicts (principal : String × String) (candidate : WorkContextInput)
    (claims : List WorkContextRecord) : Prop :=
  ∃ peer ∈ claims, peer.state = .active ∧ peer.schemaVersion = workContextVersion ∧
    (peer.sessionId, peer.sessionIncarnation) ≠ principal ∧
    ∃ reason ∈ peerReasons candidate peer, reason.code.isConflict

/-- The lease stays within the claim. -/
structure Covers (claim : WorkContextRecord) (lease : OperationLease) : Prop where
  claimId : lease.claimId = claim.claimId
  sessionId : lease.sessionId = claim.sessionId
  incarnation : lease.sessionIncarnation = claim.sessionIncarnation
  targets : ∀ target ∈ lease.targets, ∃ scope ∈ claim.scopes, scopeCovers scope target
  providers : ∀ target ∈ lease.providerTargets, target ∈ claim.providerRefs

/-- A lease as `admit` adds it. -/
structure Admitted (env : Env) (registry : Registry) (claim : WorkContextRecord)
    (lease : OperationLease) : Prop where
  fresh : lease.leaseId = env.uuid
  active : lease.state = .active
  terminal : lease.terminalAtEpoch = none
  alone : ∀ other ∈ registry.operations, other.sessionId = lease.sessionId → ¬ other.nonterminal
  held : claim ∈ registry.claims ∧ claim.state = .active
  covered : Covers claim lease
  noConflict : ¬ Conflicts (claim.sessionId, claim.sessionIncarnation) (inputFromRecord claim)
    registry.claims

/-- A claim as `claim` and `set_declared` add it. -/
structure Declared (env : Env) (registry : Registry) (claim : WorkContextRecord) : Prop where
  fresh : claim.claimId = env.uuid
  active : claim.state = .active
  terminal : claim.terminalAtEpoch = none
  wellFormed : claim.WellFormed
  alone : ∀ other ∈ registry.claims, other.sessionId = claim.sessionId →
    other.sessionIncarnation = claim.sessionIncarnation → other.state ≠ .active
  broker : BrokerIs registry.brokers claim.sessionId claim.sessionIncarnation

/-- An event as `complete` persists it. -/
structure Persisted (env : Env) (registry : Registry) (event : CompletionEvent)
    (lease : OperationLease) : Prop where
  found : registry.operations.find? event.names = some lease
  nonterminal : lease.nonterminal
  revision : lease.revision = event.ifRevision
  token : lease.executionTokenDigest = event.executionTokenDigest
  fresh : ∀ pending ∈ registry.completionEvents, pending.eventId ≠ event.eventId
  named : event.eventId = ⟨event.sessionId, event.sessionIncarnation, event.leaseId,
    event.idempotencyKey⟩
  free : ReceiptFree env registry event.receiptKey

def KeepsAwake (env : Env) (r r' : Registry) : Prop := ∀ t, env.now ≤ t → Awake t r → Awake t r'

inductive Move (codec : Codec) (env : Env) (renews : OperationLease → Prop) :
    Registry → Registry → Prop
  | mail (r : Registry) (messages : List StoredMessage) (rejections : List QuotaRejection)
      (notifications : Table NotificationKey NotificationReceipt)
      (h : KeepsAwake env r
        { r with
          messages := messages
          quotaRejections := rejections
          notifications := notifications })
      (hp : Posts env r.messages messages) :
      Move codec env renews r
        { r with
          messages := messages
          quotaRejections := rejections
          notifications := notifications }
  | fingerprint (r : Registry) (epoch : Nat) (key : String) :
      Move codec env renews r { r with fingerprintEpoch := epoch, fingerprintKey := key }
  | dropCursors (r : Registry) (p : String → InboxCursor → Bool)
      (acknowledgements observations : Table String Advisory) :
      Move codec env renews r
        { r with
          cursors := Table.filter p r.cursors
          advisoryAcknowledgements := acknowledgements
          advisoryObservations := observations }
  | keepCursor (r : Registry) (args : InboxArgs) (last : StoredMessage) (key : String)
      (cursors : Table String InboxCursor)
      (h : keepCursor env args last r = .ok ({ r with cursors := cursors }, key)) :
      Move codec env renews r { r with cursors := cursors }
  | dropReceipts (r : Registry) (now : Int) (hnow : now = env.lockNow ∨ now = env.now) :
      Move codec env renews r
        { r with
          receipts := Table.filter (fun _ receipt => decide (receipt.expiresAtEpoch > now))
            r.receipts }
  | store {r r' : Registry} (key : ReceiptKey) (digest : RequestDigest) (outcome : Outcome)
      (hop : key.operation ≠ .workContextComplete) (free : ReceiptFree env r key)
      (h : storeReceipt codec r key digest outcome env.now = .ok r') : Move codec env renews r r'
  | accept {r r' : Registry} (envelope : Envelope) (outcome : Outcome)
      (free : ReceiptFree env r (receiveKey envelope.messageId))
      (h : storeReceipt codec r (receiveKey envelope.messageId) (.receive envelope) outcome
        env.now = .ok r') :
      Move codec env renews r (extendReceipt envelope r')
  | drain {r r' : Registry} (event : CompletionEvent) (lease : OperationLease) (now : Int)
      (hnow : now = env.lockNow ∨ now = env.now)
      (hevent : event ∈ r.completionEvents) (hlease : r.operations.find? event.names = some lease)
      (accepts : event.accepts lease)
      (h : storeReceipt codec r event.receiptKey event.requestDigest
        (.lease (publicLease (completeLease event.outcome now lease))) now = .ok r') :
      Move codec env renews r
        { r' with
          operations := updateFirst event.names (completeLease event.outcome now) r'.operations
          completionEvents := r'.completionEvents.filter fun candidate =>
            candidate.eventId ≠ event.eventId }
  | leases (r : Registry) (operations : List OperationLease)
      (h : Evolves (LeaseStep renews (Undrained r)) r.operations operations) :
      Move codec env renews r { r with operations := operations }
  | claims (r : Registry) (claims : List WorkContextRecord) (h : Evolves ClaimStep r.claims claims)
      (keep : ∀ claim ∈ r.claims, claim.state = .active → claim.terminalAtEpoch = none →
        hasNonterminalOperation r.operations claim.claimId →
        ∃ claim' ∈ claims, ClaimStep claim claim' ∧ claim'.state = .active) :
      Move codec env renews r { r with claims := claims }
  | endWork (r : Registry) (sessionId : String) (ends : String → Bool) (now : Int) :
      Move codec env renews r (endWork sessionId ends now r)
  | retireClaims (r : Registry) (sessionId incarnation : String) (now : Int)
      (h : operationsQuiescent r sessionId incarnation) :
      Move codec env renews r
        { r with claims := r.claims.map (endClaim sessionId (· = incarnation) now) }
  | dropEvents (r : Registry) (p : CompletionEvent → Bool) :
      Move codec env renews r { r with completionEvents := r.completionEvents.filter p }
  | addEvent (r : Registry) (event : CompletionEvent) (lease : OperationLease)
      (h : Persisted env r event lease) :
      Move codec env renews r { r with completionEvents := r.completionEvents ++ [event] }
  | brokers (r : Registry) (brokers : Table String BrokerRecord)
      (keep : ∀ claim ∈ r.claims, claim.state = .active →
        BrokerIs r.brokers claim.sessionId claim.sessionIncarnation →
        BrokerIs brokers claim.sessionId claim.sessionIncarnation) :
      Move codec env renews r { r with brokers := brokers }

/-- A sequence of moves. -/
abbrev Moves (codec : Codec) (env : Env) (renews : OperationLease → Prop) :
    Registry → Registry → Prop := Relation.ReflTransGen (Move codec env renews)

/-- A new record: a claim or a lease under the id that the section draws, or a message. -/
inductive Add (env : Env) : Registry → Registry → Prop
  | claim (r : Registry) (claim : WorkContextRecord) (h : Declared env r claim) :
      Add env r { r with claims := r.claims ++ [claim] }
  | lease (r : Registry) (claim : WorkContextRecord) (lease : OperationLease)
      (h : Admitted env r claim lease) :
      Add env r { r with operations := r.operations ++ [lease] }
  | message (r : Registry) (messages : List StoredMessage) (message : StoredMessage)
      (rejections : List QuotaRejection)
      (notifications : Table NotificationKey NotificationReceipt)
      (h : KeepsAwake env r
        { r with
          messages := messages ++ [message]
          quotaRejections := rejections
          notifications := notifications })
      (hp : Posts env r.messages messages) (hnew : NewMessage env messages message) :
      Add env r
        { r with
          messages := messages ++ [message]
          quotaRejections := rejections
          notifications := notifications }

def SectionMoves (codec : Codec) (env : Env) (renews : OperationLease → Prop)
    (r r' : Registry) : Prop :=
  ∃ r₁ r₂, Moves codec env renews r r₁ ∧ (r₂ = r₁ ∨ Add env r₁ r₂) ∧ Moves codec env renews r₂ r'

/-! ## What a life keeps -/

namespace LeaseStep

variable {renews pends : OperationLease → Prop} {x y : OperationLease}

section

variable (h : LeaseStep renews pends x y)

include h

/-- The identity and the extent of a lease never change. -/
theorem same :
    y.leaseId = x.leaseId ∧ y.sessionId = x.sessionId ∧
      y.sessionIncarnation = x.sessionIncarnation ∧ y.claimId = x.claimId ∧
      y.targets = x.targets ∧ y.providerTargets = x.providerTargets ∧
      y.executionTokenDigest = x.executionTokenDigest := by
  cases h <;> exact ⟨rfl, rfl, rfl, rfl, rfl, rfl, rfl⟩

theorem leaseId : y.leaseId = x.leaseId := h.same.1

theorem revision_le : x.revision ≤ y.revision := by
  cases h with
  | stay | renew | stamp => exact le_refl _
  | expire | pend | finish => exact le_u64Succ _

/-- A terminal lease keeps its state, outcome and revision. -/
theorem terminal (hx : ¬ x.nonterminal) :
    y.state = x.state ∧ y.outcome = x.outcome ∧ y.revision = x.revision := by
  cases h with
  | stay | stamp => exact ⟨rfl, rfl, rfl⟩
  | renew h _ _ | pend h _ _ | finish h _ _ _ _ _ => exact absurd h hx
  | expire h => exact absurd (by simp [OperationLease.nonterminal, h, LeaseState.nonterminal]) hx

theorem nonterminal_of (hy : y.nonterminal) : x.nonterminal := by
  by_contra hx
  rw [OperationLease.nonterminal, (h.terminal hx).1] at hy
  exact hx hy

end

end LeaseStep

namespace ClaimStep

variable {x y : WorkContextRecord}

/-- The identity and the extent of a claim never change. -/
theorem same (h : ClaimStep x y) :
    y.claimId = x.claimId ∧ y.sessionId = x.sessionId ∧
      y.sessionIncarnation = x.sessionIncarnation ∧ y.scopes = x.scopes ∧
      y.providerRefs = x.providerRefs ∧ y.repositories = x.repositories ∧
      y.schemaVersion = x.schemaVersion := by
  cases h <;> exact ⟨rfl, rfl, rfl, rfl, rfl, rfl, rfl⟩

theorem claimId (h : ClaimStep x y) : y.claimId = x.claimId := h.same.1

theorem active_of (h : ClaimStep x y) (hy : y.state = .active) :
    x.state = .active ∧ y.terminalAtEpoch = x.terminalAtEpoch := by
  cases h with
  | stay => exact ⟨hy, rfl⟩
  | renew h => exact ⟨h, rfl⟩
  | finish h state hs => exact absurd hy hs
  | stamp h => exact absurd hy h

end ClaimStep

end NilsCli.Coordination
