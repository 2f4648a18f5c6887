import NilsCli.Lib.Transition
import NilsCli.Review.Ledger

/-!
# Appending to the review ledger

An append reads the ledger, checks that its tip and the owner of the review allow the record, posts
one comment and reads back.
-/

namespace NilsCli.Review

open Lib

structure Surroundings where
  agentSessionId : String
  agentReviewerSession : Option String
  agentReviewAssignmentGeneration : Option String
  /-- The head of the pull request, if the provider names one. -/
  providerHead : Except ForgeError (Option String)
  providerBase : Except ForgeError String
  /-- The supervisors that the repository trusts, and after how many seconds a coordinator that has
  ended is stale. -/
  supervisorPolicy : Except ForgeError (List String × Nat)
  retirementEvidence : Except ForgeError CoordinatorRetirementEvidence
  supervisorAttestation : Except ForgeError SupervisorAttestation

/-- `ReviewStateAppend`, without the pull request. -/
structure ReviewStateAppend (State Receipt : Type) where
  expectedHead : String
  expectedTip : Option String
  payload : ReviewStatePayload State Receipt
  visibleOutcome : Option String

section
variable {State Receipt : Type} (host : Host State Receipt) (env : Surroundings)

variable (records : List (ReviewStateRecord State Receipt))

/-! ## Writers -/

def sessionDigest (selector : String) : Except ForgeError String := do
  let id := (splitAt selector '@').headD ""
  ensure (id ≠ "" ∧ id.utf8ByteSize ≤ 128 ∧
      id.toList.all fun c => isAsciiLower c || isAsciiUpper c || isAsciiDigit c || c = '-')
    (fail "review_assignment_invalid" "a non-empty bounded reviewer session identity is required")
  .ok (host.sha256Digest id)

def actorDigest : Except ForgeError String := sessionDigest host env.agentSessionId

def assignmentDigest : Except ForgeError (Option String) :=
  match env.agentReviewerSession.filter (· ≠ "") with
  | some selector => some <$> sessionDigest host selector
  | none => .ok none

def assigned : Except ForgeError (Option ReviewHandoff) := do
  let requested ← assignmentDigest host env
  match latest records with
  | none => do
    ensure (requested = none)
      (fail "awaiting_designated_review"
        "awaiting designated review: explicit handoff is missing")
    .ok none
  | some handoff => do
    ensure (requested.all (· = handoff.reviewerDigest))
      (fail "review_assignment_conflict"
        "reviewer assignment differs from the persisted handoff")
    ensure (handoff.returnedReason = none ∧ ¬ handoff.surrendered)
      (fail "designated_reviewer_unavailable"
        "designated reviewer unavailable; control returned to coordinator")
    .ok (some handoff)

def requireReviewer : Except ForgeError (Option ReviewHandoff) := do
  let active ← assigned host env records
  match active with
  | some handoff => do
    let actor ← actorDigest host env
    ensure (actor = handoff.reviewerDigest)
      (fail "review_writer_conflict" ("only the designated reviewer session may surrender, " ++
        "append or publish this review"))
    .ok (some handoff)
  | none => .ok none

def ensureWriter : Except ForgeError Unit := do
  match ← requireReviewer host env records with
  | some handoff =>
    ensure (env.agentReviewAssignmentGeneration.bind parseU64 = some handoff.assignmentGeneration)
      (fail "review_assignment_generation_conflict" ("designated append/publication requires " ++
        "AGENT_REVIEW_ASSIGNMENT_GENERATION from `forge-cli pr review-handoff inspect`"))
  | none => .ok ()

def ensurePayloadWriter (payload : ReviewStatePayload State Receipt) : Except ForgeError Unit := do
  match payload with
  | .reviewSyncCarryOver _ => do
    let active ← assigned host env records
    ensure active.isSome
      (fail "review_assignment_missing" "no designated reviewer handoff exists")
  | _ => ensureWriter host env records

def requireSupervisor (supervisors : List String) (actor : String) :
    Except ForgeError (Option SupervisorAttestation) :=
  if actor ∈ supervisors then .ok none
  else if supervisors.any fun s => (stripPrefix? s "role:").isSome then
    some <$> env.supervisorAttestation
  else
    .error (fail "review_writer_conflict"
      (if supervisors = [] then
        "no repository-configured handoff supervisor exists at the provider base; add " ++
          "[review_handoff].supervisors on the base branch before takeover"
      else "only a repository-configured handoff supervisor may take over"))

def ensureTakeover (actor : String) (next : ReviewHandoff) (transfer : CoordinatorTransfer) :
    Except ForgeError Unit := do
  ensure (actor = next.coordinatorDigest)
    (fail "review_writer_conflict" "takeover belongs to the successor coordinator")
  let evidence ← orErr transfer.retirementEvidence
    (fail "review_coordinator_unproven" "supervisor retirement evidence is required")
  let (supervisors, configuredStaleAfter) ← env.supervisorPolicy
  let current ← env.retirementEvidence
  ensure (current = evidence ∧ transfer.lifecycleSourceDigest = evidence.machineDigest)
    (fail "review_coordinator_unproven" "retirement evidence changed before ledger append")
  let attestation ←
    if transfer.supervisorDigest = some actor then requireSupervisor env supervisors actor
    else .ok transfer.supervisorAttestation
  ensure (transfer.supervisorDigest = some actor ∧ attestation = transfer.supervisorAttestation ∧
      evidence.staleAfterSeconds = configuredStaleAfter)
    (fail "review_writer_conflict"
      "only a repository-configured handoff supervisor may take over")

def ensureHandoffAppend (next : ReviewHandoff) : Except ForgeError Unit := do
  let actor ← actorDigest host env
  match latest records with
  | some old =>
    if next.assignmentGeneration = old.assignmentGeneration ∧ next.surrendered then
      discard (requireReviewer host env records)
    else
      match next.coordinatorTransfer.filter fun _ => validCoordinatorTransfer old next with
      | some transfer => ensureTakeover env actor next transfer
      | none => do
        ensure (actor = old.coordinatorDigest ∧ next.coordinatorDigest = old.coordinatorDigest)
          (fail "review_writer_conflict"
            "only the coordinator may assign or explicitly recover ownership")
        ensure (some next.assignmentGeneration = checkedSucc old.assignmentGeneration ∧
            (next.returnedReason.isSome ∨ old.surrendered ∨ old.returnedReason.isSome ∨
              validScopeRefresh old next))
          (fail "review_handover_required" ("ownership transition requires surrender or " ++
            "explicit recovery in the next generation"))
  | none =>
    ensure (actor = next.coordinatorDigest ∧ next.assignmentGeneration = 1)
      (fail "review_writer_conflict" "initial assignment belongs to its coordinator")

/-! ## The two halves of an append -/

def ensureHandoffScope (expectedHead : String) (handoff : ReviewHandoff) :
    Except ForgeError Unit :=
  if handoff.surrendered then .ok ()
  else do
    let head ← env.providerHead
    ensure (head = some expectedHead)
      (fail "review_state_conflict" "provider head changed before review handoff")
    let base ← env.providerBase
    ensure (base = handoff.baseSha)
      (fail "review_scope_changed" "provider base changed before review handoff")

def newRecord (repository : String) (pr : Nat) (expectedHead : String)
    (chain : ReviewStateChain State Receipt) (payload : ReviewStatePayload State Receipt)
    (assignmentGeneration : Option Nat) : ReviewStateRecord State Receipt :=
  let preimage : ReviewStatePreimage State Receipt :=
    { schema := reviewStateSchema, repository, pr, expectedHead
      generation := chain.records.length, previousDigest := chain.tipDigest, payload
      assignmentGeneration }
  { preimage with recordDigest := computeDigest host preimage }

def beginAppend (repository : String) (pr : Nat) (append : ReviewStateAppend State Receipt)
    (before : ReviewStateChain State Receipt) :
    Except ForgeError (ReviewStateRecord State Receipt × String) := do
  ensure (before.tipDigest = append.expectedTip)
    (fail "review_state_conflict" "the review-state tip changed before append")
  match append.payload with
  | .reviewHandoff handoff => do
    ensureHandoffScope env append.expectedHead handoff
    ensureHandoffAppend host env before.records handoff
  | payload => ensurePayloadWriter host env before.records payload
  let assignmentGeneration := match append.payload with
    | .reviewHandoff handoff => some handoff.assignmentGeneration
    | _ => (latest before.records).map (·.assignmentGeneration)
  let record := newRecord host repository pr append.expectedHead before append.payload
    assignmentGeneration
  let _ ← host.marker record
  let body ← host.renderStateCommentBody record append.visibleOutcome
  .ok (record, body)

def verificationError (record : ReviewStateRecord State Receipt) (acknowledged : Bool)
    (cause : ForgeError) : ForgeError :=
  if acknowledged ∧ record.handoff.isSome then
    ⟨"review_handoff_persisted_verification_failed",
      "the review handoff was persisted at resulting tip " ++ record.recordDigest ++
        "; post-write verification failed (" ++ cause.kind ++
        "); inspect the handoff before retrying"⟩
  else cause

def commentCarriesOutcome (body marker outcome : String) : Bool :=
  containsText body marker && containsText body (trim outcome)

def finishAppend (record : ReviewStateRecord State Receipt) (visibleOutcome : Option String)
    (posted : Except ForgeError Unit) (comments : List String)
    (after : ReviewStateChain State Receipt) :
    Except ForgeError (ReviewStateRecord State Receipt × Bool) :=
  match after.records.find? (·.recordDigest = record.recordDigest) with
  | some observed =>
    match visibleOutcome with
    | none => .ok (observed, false)
    | some outcome => do
      let marker ← host.marker record
      ensure (comments.any fun body => commentCarriesOutcome body marker outcome)
        (fail "review_outcome_not_posted" ("the review-loop record is durable but its delivery " ++
          "outcome is not visible after provider write"))
      .ok (observed, true)
  | none =>
    match posted with
    | .ok () =>
      .error (verificationError record true (fail "review_state_conflict"
        "the review-loop state was not visible after provider write"))
    | .error cause => .error (verificationError record false cause)

/-! ## The system -/

/-- What the log of the runs tells of the ledger. -/
inductive Event (State Receipt : Type) where
  /-- A read was accepted. -/
  | read (chain : ReviewStateChain State Receipt)
  /-- An append returned success: the record that it observed in the ledger as its own. -/
  | success (record : ReviewStateRecord State Receipt)

/-- The pull request and the runs under way. -/
structure World (State Receipt : Type) where
  comments : List String
  /-- Posts that have not arrived at the provider. -/
  inFlight : List String
  /-- Runs that have posted and will read back, with their outcome texts. -/
  waiting : List (ReviewStateRecord State Receipt × Option String)
  /-- The accepted reads and the successes, the last one first. -/
  log : List (Event State Receipt)

inductive Label (State Receipt : Type) where
  /-- A run reads, checks and posts. -/
  | append (env : Surroundings) (request : ReviewStateAppend State Receipt)
  /-- A post arrives at the provider. -/
  | land (body : String)
  /-- A post never arrives. -/
  | lose (body : String)
  /-- A run reads back, after the provider's answer to its post. -/
  | readBack (record : ReviewStateRecord State Receipt) (visibleOutcome : Option String)
      (posted : Except ForgeError Unit)
  /-- Any other read of the ledger. -/
  | read
  /-- A comment without a marker. -/
  | note (body : String)

variable [DecidableEq State] [DecidableEq Receipt] (repository : String) (pr : Nat)

def observe (world : World State Receipt) :
    Except ForgeError (ReviewStateChain State Receipt × World State Receipt) := do
  let chain ← parseChain host repository pr world.comments
  .ok (chain, { world with log := .read chain :: world.log })

def next (world : World State Receipt) : Label State Receipt → Option (World State Receipt)
  | .append env request =>
    match observe host repository pr world with
    | .error _ => some world
    | .ok (chain, world) =>
      match beginAppend host env repository pr request chain with
      | .error _ => some world
      | .ok (record, body) =>
        some { world with
          inFlight := body :: world.inFlight
          waiting := (record, request.visibleOutcome) :: world.waiting }
  | .land body =>
    if body ∈ world.inFlight then
      some { world with
        comments := world.comments ++ [body]
        inFlight := world.inFlight.erase body }
    else none
  | .lose body =>
    if body ∈ world.inFlight then some { world with inFlight := world.inFlight.erase body }
    else none
  | .readBack record visibleOutcome posted =>
    if (record, visibleOutcome) ∈ world.waiting then
      let rest := { world with waiting := world.waiting.erase (record, visibleOutcome) }
      match observe host repository pr rest with
      | .error _ => some rest
      | .ok (chain, rest) =>
        match finishAppend host record visibleOutcome posted rest.comments chain with
        | .error _ => some rest
        | .ok (observed, _) => some { rest with log := .success observed :: rest.log }
    else none
  | .read =>
    match observe host repository pr world with
    | .error _ => some world
    | .ok (_, world) => some world
  | .note body =>
    if host.parseStateMarker body = .ok none then
      some { world with comments := world.comments ++ [body] }
    else none

/-- Any number of runs on one pull request, from any ledger that no run has read yet. -/
def ledger : Lts where
  State := World State Receipt
  Label := Label State Receipt
  init world := world.inFlight = [] ∧ world.waiting = [] ∧ world.log = []
  step label world world' := next host repository pr world label = some world'

end

end NilsCli.Review
