import NilsCli.Review.Loop

/-!
# Corrections, supersessions and acceptances

Three transitions of the review loop carry a receipt, and a reader of the ledger replays each of them
on the records before it.
-/

namespace NilsCli.Review

open Lib

inductive CorrectionReason where
  | omittedFindings
  deriving DecidableEq

structure CorrectionRequest where
  correctedRecord : String
  reason : CorrectionReason
  attemptedFindings : Option (List ReviewFindingObservation)

structure CorrectionReceipt where
  correctedRecord : String
  reason : CorrectionReason
  restoredFindings : List String
  attemptedFindings : Option (List ReviewFindingObservation)
  deriving DecidableEq

inductive SupersessionReason where
  | signedFastForward
  deriving DecidableEq

structure SupersessionRequest where
  supersededRecord : String
  reason : SupersessionReason
  deriving DecidableEq

structure SupersessionReceipt where
  request : SupersessionRequest
  fromHead : String
  verifiedCommits : List String
  findings : List ReviewFindingObservation
  deriving DecidableEq

structure AcceptanceRequest where
  stoppedRecord : String
  attemptedFindings : List ReviewFindingObservation
  approvalComment : Option Nat
  deriving DecidableEq

structure AcceptanceReceipt where
  request : AcceptanceRequest
  proposalDigest : String
  originalStop : ReviewLoopHardStop
  approvalReference : String
  acceptedFingerprints : List String
  findings : List ReviewFindingObservation
  deriving DecidableEq

structure ReviewRunReceipt where
  reviewRunId : String
  expectedHead : String
  deriving DecidableEq

/-- The receipts of records. -/
inductive LoopReceipt where
  | run (receipt : ReviewRunReceipt)
  | correction (receipt : CorrectionReceipt)
  | acceptance (receipt : AcceptanceReceipt)
  | supersession (receipt : SupersessionReceipt)
  deriving DecidableEq

abbrev LoopRecord := ReviewStateRecord ReviewLoopState LoopReceipt

abbrev LoopChain := ReviewStateChain ReviewLoopState LoopReceipt

/-- `latest_review_loop_state`. -/
def latestState (records : List LoopRecord) : Option ReviewLoopState :=
  records.reverse.findSome? (·.loopState)

/-- The last record that carries a state. -/
def latestStateRecord (records : List LoopRecord) : Option LoopRecord :=
  records.reverse.find? (·.loopState.isSome)

/-- The digest of a record, as requests name it. -/
def isRecordDigest (digest : String) : Bool :=
  match stripPrefix? digest "sha256:" with
  | some v => v.length = 64 && v.all fun b => isAsciiDigit b || charIn 'a' 'f' b
  | none => false

/-- The findings of a state as rows. -/
def inventoryRows (state : ReviewLoopState) : List ReviewFindingObservation :=
  state.findings.rows.map fun row =>
    { fingerprint := row.1
      rootCauseFingerprint := row.2.rootCauseFingerprint
      blocking := row.2.blocking
      status := row.2.status
      threads := row.2.threads }

def ofAssignment (records : List LoopRecord) (record : LoopRecord) : Bool :=
  (latest records).all fun handoff =>
    record.assignmentGeneration = some handoff.assignmentGeneration

variable (host : LoopHost)

variable (previous : List LoopRecord) (record : LoopRecord)

/-! ## Corrections -/

def correctionInvalid (message : String) : ForgeError := fail "review_correction_invalid" message

/-- `attempted_inventory::canonicalize`. -/
def canonicalizeAttempted (rows : Option (List ReviewFindingObservation)) :
    Except ForgeError (Option (List ReviewFindingObservation)) :=
  match rows with
  | none => .ok none
  | some rows => (canonicalObservations rows).map fun map => some map.values

def CorrectionRequest.validate (request : CorrectionRequest) : Except ForgeError Unit := do
  ensure (isRecordDigest request.correctedRecord)
    (correctionInvalid "correction must name a canonical state record digest")
  discard (canonicalizeAttempted request.attemptedFindings)

/-- `attempted_inventory::verify`. -/
def verifyAttempted (corrected : ReviewLoopState) (head : String)
    (canonicalRows : List ReviewFindingObservation)
    (proof : Option (List ReviewFindingObservation)) (stop : Option ReviewLoopHardStop) :
    Except ForgeError Unit :=
  match stop with
  | none => ensure (proof = none) (correctionInvalid
      "attempted findings proof requires a historical false-reopen stop")
  | some stop => do
    let attempted ← canonicalObservations (proof.getD canonicalRows)
    ensure (attempted.size = corrected.findings.size ∧
        (∀ row ∈ corrected.findings.rows, (attempted.find? row.1).any fun observed =>
          observed.rootCauseFingerprint = row.2.rootCauseFingerprint &&
            observed.status = row.2.status && observed.blocking = row.2.blocking &&
            observed.threads = row.2.threads) ∧
        stop.observationDigest = reviewObservationDigest host head attempted)
      (correctionInvalid "correction requires the identical attempted inventory; retain original alias rows as attempted_findings proof")

/-- The state of an ordinary observation record. -/
def ordinaryState : Option ReviewLoopState :=
  match record.payload with
  | .reviewLoop state => some state
  | _ => none

def correctionContext (records : List LoopRecord) (head : String) (request : CorrectionRequest) :
    Except ForgeError (ReviewLoopState × ReviewLoopState) := do
  request.validate
  let index ← orErr (records.findIdx? (·.recordDigest = request.correctedRecord))
    (correctionInvalid "corrected record is absent from the current chain")
  let target ← orErr (records[index]?.bind ordinaryState)
    (correctionInvalid "correction must target an ordinary observation record")
  let prior ← orErr (latestState (records.take index))
    (correctionInvalid "a genesis observation cannot contain inferred omissions")
  let latest ← orErr (latestState records)
    (correctionInvalid "corrected record is absent from the current chain")
  ensure (¬ (target.headSha ≠ head ∨ latest.headSha ≠ head ∨ prior.headSha = head ∨
      target.hardStop.isSome))
    (correctionInvalid "correction requires the erroneous observation's current head")
  ensure (latest.hardStop.all fun stop => stop.code = "review_finding_reopened" &&
      stop.attemptedHeadSha = head && !stop.extensionApplied)
    (correctionInvalid "correction cannot clear an unrelated or extended budget stop")
  ensure ({ latest with hardStop := none } = target)
    (correctionInvalid "a later observation changed the state being corrected")
  .ok (target, prior)

def restoreFindings (target prior : ReviewLoopState) :
    List String → SortedMap String ReviewLoopFinding →
      Except ForgeError (SortedMap String ReviewLoopFinding)
  | [], findings => .ok findings
  | fingerprint :: fingerprints, findings => do
    let before ← orErr ((prior.findings.find? fingerprint).filter (·.status = .open_))
      (correctionInvalid "restored finding was not open before the observation")
    ensure (target.findings.find? fingerprint = some { before with status := .fixed })
      (correctionInvalid "restored finding is not a chain-proven omission")
    restoreFindings target prior fingerprints (findings.insert fingerprint before)

def restore (records : List LoopRecord) (head : String) (receipt : CorrectionReceipt) :
    Except ForgeError ReviewLoopState := do
  let attempted ← canonicalizeAttempted receipt.attemptedFindings
  ensure (attempted = receipt.attemptedFindings)
    (correctionInvalid "correction receipt requires canonical attempted proof")
  let (target, prior) ← correctionContext records head
    ⟨receipt.correctedRecord, receipt.reason, receipt.attemptedFindings⟩
  ensure (receipt.restoredFindings ≠ [] ∧ receipt.restoredFindings.IsChain (· < ·))
    (correctionInvalid "correction must list sorted unique omitted identities")
  let findings ← restoreFindings target prior receipt.restoredFindings target.findings
  let corrected := { target with findings }
  verifyAttempted host corrected head (inventoryRows corrected) receipt.attemptedFindings
    ((latestState records).bind (·.hardStop))
  let blocking (state : ReviewLoopState) := openBlocking (·.status) (·.blocking) state.findings
  let corrected :=
    if 0 < blocking corrected ∧ blocking prior ≤ blocking corrected then
      { corrected with
        noProgressRounds := max corrected.noProgressRounds (u32Succ prior.noProgressRounds) }
    else corrected
  if corrected.budget.maxNoProgressRounds < corrected.noProgressRounds then
    recordReviewLoopHardStop host corrected head (inventoryRows corrected)
      ((records.getLast?.map (·.recordDigest)).getD "")
      (fail "review_no_progress" "corrected inventory retains an exhausted no-progress budget")
  else .ok corrected

def matchesInventory (state : ReviewLoopState)
    (inventory : SortedMap String ReviewFindingObservation) : Bool :=
  state.findings.size = inventory.size && state.findings.rows.all fun row =>
    (inventory.find? row.1).any fun observed => observed.fingerprint = row.1 &&
      observed.status = row.2.status && observed.blocking = row.2.blocking &&
      observed.rootCauseFingerprint = row.2.rootCauseFingerprint &&
      observed.threads = row.2.threads

/-- A transition with the receipt of its record. -/
structure ReceiptTransition (Receipt : Type) where
  state : ReviewLoopState
  changed : Bool
  receipt : Receipt
  deriving DecidableEq

/-- `correction::apply`. -/
def applyCorrection (chain : LoopChain) (head : String) (expectedTip : Option String)
    (request : CorrectionRequest) (observations : List ReviewFindingObservation) :
    Except ForgeError (ReceiptTransition CorrectionReceipt) := do
  request.validate
  ensure (expectedTip.isSome ∧ expectedTip = chain.tipDigest)
    (correctionInvalid "correction requires an explicit current --expected-state tip")
  let inventory ← canonicalObservations observations
  let attemptedFindings ← canonicalizeAttempted request.attemptedFindings
  let retried := (latestStateRecord chain.records).bind fun record =>
    match record.payload with
    | .reviewLoopCorrection state (.correction correction) =>
      if correction.correctedRecord = request.correctedRecord ∧
          correction.reason = request.reason ∧
          correction.attemptedFindings = attemptedFindings ∧ state.headSha = head ∧
          matchesInventory state inventory then some (record, state, correction)
      else none
    | _ => none
  match retried with
  | some (record, state, correction) => do
    ensure (ofAssignment chain.records record) (correctionInvalid
      "a correction retry from an earlier assignment cannot establish a new interval; observe its ordinary inventory first")
    .ok ⟨state, false, correction⟩
  | none => do
    let (target, _) ← correctionContext chain.records head request
    ensure (target.findings.size = inventory.size ∧
        ∀ key ∈ target.findings.keys, (inventory.find? key).isSome)
      (correctionInvalid "correction requires the complete finding inventory")
    let restoredFindings := (inventory.rows.filter fun row => row.2.status = .open_ &&
      (target.findings.find? row.1).any (·.status = .fixed)).map (·.1)
    let correction : CorrectionReceipt :=
      ⟨request.correctedRecord, request.reason, restoredFindings, attemptedFindings⟩
    let corrected ← restore host chain.records head correction
    ensure (matchesInventory corrected inventory) (correctionInvalid
      "correction may only restore proven omitted findings without changing other dispositions or metadata")
    .ok ⟨corrected, true, correction⟩

def payloadMismatch : ForgeError :=
  stateConflict "review-state marker payload does not match the current record contract; ask the reviewer or steward to coordinate current input; never rewrite retained ledgers"

/-- `correction::validate_record`. -/
def validateCorrectionRecord : Except ForgeError Unit :=
  match record.payload with
  | .reviewLoopCorrection state receipt =>
    match receipt with
    | .correction correction => do
      let restored ← restore host previous record.expectedHead correction
      ensure (restored = state) (correctionInvalid
        "correction record changed counters, budgets, or unrelated findings")
    | _ => .error payloadMismatch
  | _ => .ok ()

/-! ## Supersessions -/

def supersessionInvalid (message : String) : ForgeError :=
  fail "review_supersession_invalid" message

def maxVerifiedCommits : Nat := 100

/-- `supersession::valid_sha`. -/
def validFullSha (value : String) : Bool :=
  value.utf8ByteSize = 40 && value.toList.all fun c => isAsciiDigit c || charIn 'a' 'f' c

def SupersessionRequest.validate (request : SupersessionRequest) : Except ForgeError Unit :=
  ensure (isRecordDigest request.supersededRecord)
    (supersessionInvalid "superseded record must be a canonical record digest")

def sourceHead (records : List LoopRecord) (request : SupersessionRequest) :
    Except ForgeError String := do
  request.validate
  let target ← orErr (records.find? (·.recordDigest = request.supersededRecord))
    (supersessionInvalid "superseded record is not in the current chain")
  let state ← orErr target.loopState
    (supersessionInvalid "superseded record is not a review-loop state")
  let stop ← orErr state.hardStop
    (supersessionInvalid "supersession requires a durable budget hard stop")
  .ok stop.attemptedHeadSha

/-- `supersession::apply`. -/
def applySupersession (chain : LoopChain) (head : String) (expectedTip : Option String)
    (request : SupersessionRequest) (observations : List ReviewFindingObservation)
    (verifiedCommits : List String) :
    Except ForgeError (ReceiptTransition SupersessionReceipt) := do
  request.validate
  ensure (expectedTip.isSome ∧ expectedTip = chain.tipDigest)
    (supersessionInvalid "supersession requires the explicit current state tip")
  let fromHead ← sourceHead chain.records request
  ensure (validFullSha fromHead ∧ validFullSha head ∧ fromHead ≠ head)
    (supersessionInvalid "supersession requires distinct full commit IDs")
  ensure (verifiedCommits ≠ [] ∧ verifiedCommits.length ≤ maxVerifiedCommits ∧
      verifiedCommits.getLast? = some head ∧
      (∀ sha ∈ verifiedCommits, validFullSha sha ∧ sha ≠ fromHead) ∧ verifiedCommits.Nodup)
    (supersessionInvalid "signed fast-forward proof is incomplete")
  let canonical ← canonicalObservations observations
  let receipt : SupersessionReceipt := ⟨request, fromHead, verifiedCommits, canonical.values⟩
  let latest ← orErr (latestStateRecord chain.records)
    (supersessionInvalid "supersession requires an existing state")
  let retried := match latest.payload with
    | .reviewLoopSupersession state (.supersession supersession) =>
      if supersession = receipt ∧ latest.expectedHead = head then some state else none
    | _ => none
  match retried with
  | some state => do
    ensure (ofAssignment chain.records latest) (supersessionInvalid
      "an earlier-assignment supersession retry cannot establish a new interval; use the current stop's approval and extension path before ordinary observation")
    .ok ⟨state, false, receipt⟩
  | none => do
    ensure (latest.recordDigest = request.supersededRecord)
      (supersessionInvalid "supersession target must be the latest review-loop state")
    let previous ← orErr latest.loopState
      (supersessionInvalid "supersession requires an existing state")
    let stop ← orErr previous.hardStop
      (supersessionInvalid "supersession requires a durable budget hard stop")
    ensure (missing previous canonical = [])
      (supersessionInvalid "supersession inventory must include every open finding")
    let observationDigest := reviewObservationDigest host head canonical
    let binding := host.sha256Digest (host.supersessionText expectedTip observationDigest)
    let proposalDigest ← extensionProposalDigest host binding stop.code stop.budgetField
      stop.increment
    .ok ⟨{ previous with
        hardStop := some { stop with
          attemptedHeadSha := head, observationDigest, proposalDigest
          extensionApplied := false } }, true, receipt⟩

/-- `supersession::validate_record`. -/
def validateSupersessionRecord : Except ForgeError Unit :=
  match record.payload with
  | .reviewLoopSupersession state receipt =>
    match receipt with
    | .supersession supersession => do
      let chain : LoopChain := ⟨previous, previous.getLast?.map (·.recordDigest), []⟩
      let fromHead ← sourceHead previous supersession.request
      ensure (supersession.fromHead = fromHead)
        (supersessionInvalid "supersession source head does not match its target")
      let expected ← applySupersession host chain record.expectedHead record.previousDigest
        supersession.request supersession.findings supersession.verifiedCommits
      ensure (expected.changed ∧ expected.state = state ∧ expected.receipt = supersession)
        (supersessionInvalid "supersession receipt changed history, counters, or budgets")
    | _ => .error payloadMismatch
  | _ => .ok ()

/-! ## Acceptances -/

def acceptanceInvalid (message : String) : ForgeError := fail "review_acceptance_invalid" message

def AcceptanceRequest.validate (request : AcceptanceRequest) : Except ForgeError Unit := do
  ensure (isRecordDigest request.stoppedRecord ∧ request.approvalComment ≠ some 0)
    (acceptanceInvalid "acceptance requires a canonical stopped record and a positive approval comment id")
  discard (canonicalObservations request.attemptedFindings)

/-- `acceptance::proposal_digest`. -/
def acceptanceProposalDigest (request : AcceptanceRequest) (head : String)
    (findings : List ReviewFindingObservation) : Except ForgeError String := do
  request.validate
  let attempted ← canonicalObservations request.attemptedFindings
  let current ← canonicalObservations findings
  .ok (host.sha256Digest (host.acceptanceText request.stoppedRecord head attempted current))

/-- The keys of the rows that accept an open finding, where every other row is unchanged. -/
def acceptedRows (attempted : SortedMap String ReviewFindingObservation) :
    List (String × ReviewFindingObservation) → Except ForgeError (List String)
  | [] => .ok []
  | row :: rows => do
    let original ← orErr (attempted.find? row.1) (acceptanceInvalid "acceptance added a finding")
    if row.2 = original then acceptedRows attempted rows
    else do
      ensure (original.status = .open_ ∧
          row.2 = { original with status := .accepted, blocking := false })
        (acceptanceInvalid "acceptance may only change open findings to accepted")
      let accepted ← acceptedRows attempted rows
      .ok (row.1 :: accepted)

def acceptFinding (head : String) (finding : Option ReviewLoopFinding)
    (row : ReviewFindingObservation) : ReviewLoopFinding :=
  let finding := finding.getD
    { rootCauseFingerprint := row.rootCauseFingerprint
      status := row.status
      blocking := row.blocking
      firstSeenHead := head
      lastSeenHead := head
      seenCount := 1
      reopenCount := 0
      threads := [] }
  { finding with
    rootCauseFingerprint := row.rootCauseFingerprint
    status := row.status
    blocking := row.blocking
    lastSeenHead := head
    threads := sortDedup (finding.threads ++ row.threads) }

/-- `acceptance::apply`. -/
def applyAcceptance (chain : LoopChain) (head : String) (expectedTip : Option String)
    (request : AcceptanceRequest) (findings : List ReviewFindingObservation)
    (approvalReference : String) : Except ForgeError (ReceiptTransition AcceptanceReceipt) := do
  request.validate
  ensure (expectedTip.isSome ∧ expectedTip = chain.tipDigest)
    (acceptanceInvalid "acceptance requires the explicit current state tip")
  let comment ← orErr (request.approvalComment.filter (0 < ·))
    (acceptanceInvalid "acceptance requires a provider approval comment")
  let target ← orErr chain.records.head?
    (acceptanceInvalid "acceptance requires an existing stopped state")
  let (path, fragment) ← orErr (host.parseUrl approvalReference)
    (acceptanceInvalid "acceptance approval reference is not a URL")
  ensure (path = "/" ++ target.repository ++ "/pull/" ++ toString target.pr ∧
      fragment = some ("issuecomment-" ++ toString comment))
    (acceptanceInvalid "acceptance approval reference does not match its comment")
  let current ← canonicalObservations findings
  let attempted ← canonicalObservations request.attemptedFindings
  ensure (current.size = attempted.size)
    (acceptanceInvalid "acceptance must retain the complete stopped inventory")
  let acceptedFingerprints ← acceptedRows attempted current.rows
  ensure (acceptedFingerprints ≠ [] ∧
      ¬ current.values.any fun row => row.status = .open_ && row.blocking)
    (acceptanceInvalid "terminal acceptance must dispose every open blocking finding")
  let source ← orErr ((chain.records.find? (·.recordDigest = request.stoppedRecord)).bind
      (·.loopState)) (acceptanceInvalid "acceptance target is absent from the chain")
  let stop ← orErr source.hardStop (acceptanceInvalid "acceptance requires a durable hard stop")
  ensure (stop.attemptedHeadSha = head ∧
      stop.observationDigest = reviewObservationDigest host head attempted)
    (acceptanceInvalid "acceptance proof does not match the stopped head and inventory")
  let proposalDigest ← acceptanceProposalDigest host request head findings
  let receipt : AcceptanceReceipt :=
    { request := { request with attemptedFindings := attempted.values }
      proposalDigest
      originalStop := stop
      approvalReference
      acceptedFingerprints
      findings := current.values }
  let latest ← orErr (latestStateRecord chain.records)
    (acceptanceInvalid "acceptance requires an existing stopped state")
  let retried := match latest.payload with
    | .reviewLoopAcceptance state (.acceptance acceptance) =>
      if acceptance = receipt ∧ latest.expectedHead = head then some state else none
    | _ => none
  match retried with
  | some state => do
    ensure (ofAssignment chain.records latest) (acceptanceInvalid
      "an earlier-assignment acceptance cannot establish a new review interval")
    .ok ⟨state, false, receipt⟩
  | none => do
    ensure (latest.recordDigest = request.stoppedRecord)
      (acceptanceInvalid "acceptance must name the latest stopped review-loop record")
    let previous ← orErr latest.loopState
      (acceptanceInvalid "acceptance requires an existing stopped state")
    ensure (missing previous attempted = [])
      (acceptanceInvalid "acceptance cannot omit a previously open finding")
    let findings ← SortedMap.upsertAll (fun _ finding row => .ok (acceptFinding head finding row))
      current.rows previous.findings
    .ok ⟨{ previous with headSha := head, hardStop := none, findings }, true, receipt⟩

/-- `acceptance::validate_record`. -/
def validateAcceptanceRecord : Except ForgeError Unit :=
  match record.payload with
  | .reviewLoopAcceptance state receipt =>
    match receipt with
    | .acceptance acceptance => do
      let chain : LoopChain := ⟨previous, record.previousDigest, []⟩
      let expected ← applyAcceptance host chain record.expectedHead record.previousDigest
        acceptance.request acceptance.findings acceptance.approvalReference
      ensure (expected.changed ∧ expected.state = state ∧ expected.receipt = acceptance)
        (acceptanceInvalid "acceptance receipt changed history, counters, or budgets")
    | _ => .error payloadMismatch
  | _ => .ok ()

def LoopHost.ledger (texts : Host ReviewLoopState LoopReceipt) :
    Host ReviewLoopState LoopReceipt :=
  { texts with
    sha256Digest := host.sha256Digest
    headSha := (·.headSha)
    attemptedHeadSha := fun state => state.hardStop.map (·.attemptedHeadSha)
    validateReviewLoopState := validateReviewLoopState
    validateCorrection := validateCorrectionRecord host
    validateSupersession := validateSupersessionRecord host
    validateAcceptance := validateAcceptanceRecord host }

end NilsCli.Review
