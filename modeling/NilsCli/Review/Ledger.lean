import NilsCli.Lib.Guard
import NilsCli.Lib.Saturating
import NilsCli.Lib.Text

/-!
# The review ledger

The reviews of a pull request are kept as records in its comments.
-/

namespace NilsCli.Review

open Lib

/-! ## Data -/

structure ForgeError where
  kind : String
  message : String
  deriving DecidableEq

inductive ApprovalPolicy where
  | sourcePass
  | finalApproval
  deriving DecidableEq

structure SupervisorAttestation where
  role : String
  bindingDigest : String
  deriving DecidableEq

structure CoordinatorRetirementEvidence where
  machineDigest : String
  sessionStatus : String
  lastActivityAt : String
  staleAfterSeconds : Nat
  deriving DecidableEq

structure CoordinatorTransfer where
  oldCoordinatorDigest : String
  newCoordinatorDigest : String
  lifecycleSourceDigest : String
  reason : String
  supervisorDigest : Option String
  supervisorAttestation : Option SupervisorAttestation
  retirementEvidence : Option CoordinatorRetirementEvidence
  deriving DecidableEq

structure ReviewHandoff where
  approvalPolicy : ApprovalPolicy
  coordinatorDigest : String
  reviewerDigest : String
  reviewAuthor : String
  baseSha : String
  assignedHead : String
  returnedReason : Option String
  assignmentGeneration : Nat
  surrendered : Bool
  coordinatorTransfer : Option CoordinatorTransfer
  baseRef : String
  deriving DecidableEq

structure SyncCarryOver where
  reviewUrl : String
  reviewedHead : String
  head : String
  baseCommit : String
  mergeTree : String
  deriving DecidableEq

inductive ReviewStatePayload (State Receipt : Type) where
  | reviewRunReceipt (receipt : Receipt)
  | reviewLoop (state : State)
  | reviewLoopCorrection (state : State) (correction : Receipt)
  | reviewLoopAcceptance (state : State) (acceptance : Receipt)
  | reviewLoopSupersession (state : State) (supersession : Receipt)
  | reviewHandoff (handoff : ReviewHandoff)
  | reviewSyncCarryOver (carryOver : SyncCarryOver)
  deriving DecidableEq

structure ReviewStatePreimage (State Receipt : Type) where
  schema : String
  repository : String
  pr : Nat
  expectedHead : String
  generation : Nat
  previousDigest : Option String
  payload : ReviewStatePayload State Receipt
  assignmentGeneration : Option Nat
  deriving DecidableEq

structure ReviewStateRecord (State Receipt : Type) extends ReviewStatePreimage State Receipt where
  recordDigest : String
  deriving DecidableEq

structure ReviewStateChain (State Receipt : Type) where
  records : List (ReviewStateRecord State Receipt)
  tipDigest : Option String
  ignoredStaleRecords : List String
  deriving DecidableEq

def reviewStateSchema : String := "forge-cli.review-loop.v1"

structure Host (State Receipt : Type) where
  sha256Digest : String → String
  /-- The canonical JSON that is digested. -/
  preimageText : ReviewStatePreimage State Receipt → String
  parseStateMarker : String → Except ForgeError (Option (ReviewStateRecord State Receipt))
  marker : ReviewStateRecord State Receipt → Except ForgeError String
  renderStateCommentBody :
    ReviewStateRecord State Receipt → Option String → Except ForgeError String
  validTimestamp : String → Bool
  validRole : String → Bool
  headSha : State → String
  /-- The head that the hard stop of a state was reached at. -/
  attemptedHeadSha : State → Option String
  validateReviewLoopState : State → Except ForgeError Unit
  validateCorrection : List (ReviewStateRecord State Receipt) → ReviewStateRecord State Receipt →
    Except ForgeError Unit
  validateSupersession : List (ReviewStateRecord State Receipt) →
    ReviewStateRecord State Receipt → Except ForgeError Unit
  validateAcceptance : List (ReviewStateRecord State Receipt) → ReviewStateRecord State Receipt →
    Except ForgeError Unit

def stateConflict (message : String) : ForgeError := ⟨"review_state_conflict", message⟩

def fail (kind message : String) : ForgeError := ⟨kind, message⟩

/-- `u64::checked_add(1)`. -/
def checkedSucc (n : Nat) : Option Nat := if n < u64Max then some (n + 1) else none

@[grind =>]
theorem eq_of_checkedSucc {n m : Nat} (h : checkedSucc n = some m) : m = n + 1 := by
  unfold checkedSucc at h
  split at h
  · exact (Option.some.inj h).symm
  · cases h

/-! ## Handoffs -/

def digestValid (s : String) : Bool :=
  match stripPrefix? s "sha256:" with
  | some v => v.length = 64 && v.all isAsciiHexDigit
  | none => false

def validSha (s : String) : Bool := s.utf8ByteSize = 40 && s.toList.all isAsciiHexDigit

def validBaseRef (s : String) : Bool :=
  s ≠ "" && s.utf8ByteSize ≤ 255 && !s.toList.any fun c => isWhitespace c || isControl c

/-- The characters of a public review author. -/
def isAuthorChar (c : Char) : Bool :=
  isAsciiLower c || isAsciiUpper c || isAsciiDigit c || "-_[].".toList.contains c

section
variable {State Receipt : Type}

def SupervisorAttestation.valid (host : Host State Receipt) (a : SupervisorAttestation) : Bool :=
  host.validRole a.role && digestValid a.bindingDigest

def transferValid (host : Host State Receipt) (h : ReviewHandoff) (t : CoordinatorTransfer) :
    Bool :=
  digestValid t.oldCoordinatorDigest && digestValid t.lifecycleSourceDigest &&
    t.oldCoordinatorDigest ≠ h.coordinatorDigest && t.newCoordinatorDigest = h.coordinatorDigest &&
    t.reason = "coordinator-retired" &&
    t.supervisorDigest.isSome = t.retirementEvidence.isSome &&
    t.supervisorDigest.all (fun d => digestValid d && d = t.newCoordinatorDigest) &&
    t.supervisorAttestation.all (fun a => t.supervisorDigest.isSome && a.valid host) &&
    t.retirementEvidence.all fun e =>
      digestValid e.machineDigest && ["stopped", "deleted"].contains e.sessionStatus &&
        host.validTimestamp e.lastActivityAt && 60 ≤ e.staleAfterSeconds

def validateHandoff (host : Host State Receipt) (h : ReviewHandoff) : Except ForgeError Unit :=
  ensure
    (h.assignmentGeneration ≠ 0 ∧ ¬ (h.surrendered ∧ h.returnedReason.isSome) ∧
      (h.returnedReason = some "coordinator-retired" ↔ h.coordinatorTransfer.isSome) ∧
      h.coordinatorTransfer.all (transferValid host h) ∧
      digestValid h.coordinatorDigest ∧ digestValid h.reviewerDigest ∧
      h.coordinatorDigest ≠ h.reviewerDigest ∧ validSha h.baseSha ∧ validSha h.assignedHead ∧
      validBaseRef h.baseRef ∧ h.reviewAuthor ≠ "" ∧ h.reviewAuthor.utf8ByteSize ≤ 128 ∧
      h.reviewAuthor.toList.all isAuthorChar ∧
      h.returnedReason.all fun r => ["reviewer-unreachable", "reviewer-closed",
        "reviewer-declined", "reviewer-timeout", "coordinator-retired"].contains r)
    (fail "review_assignment_invalid" "persisted reviewer handoff is invalid")

/-- `valid_scope_refresh`: a moved base starts a new interval for the same reviewer. -/
def validScopeRefresh (old next : ReviewHandoff) : Bool :=
  !old.surrendered && old.returnedReason.isNone && !next.surrendered &&
    next.returnedReason.isNone && next.coordinatorTransfer.isNone &&
    next.coordinatorDigest = old.coordinatorDigest && next.reviewerDigest = old.reviewerDigest &&
    next.reviewAuthor = old.reviewAuthor && next.approvalPolicy = old.approvalPolicy &&
    next.baseSha ≠ old.baseSha &&
    some next.assignmentGeneration = checkedSucc old.assignmentGeneration

def validCoordinatorTransfer (old next : ReviewHandoff) : Bool :=
  next.coordinatorTransfer.any fun t =>
    t.oldCoordinatorDigest = old.coordinatorDigest &&
      t.newCoordinatorDigest = next.coordinatorDigest &&
      next.coordinatorDigest ≠ old.coordinatorDigest &&
      next.coordinatorDigest ≠ old.reviewerDigest && t.reason = "coordinator-retired" &&
      next.returnedReason = some "coordinator-retired" &&
      some next.assignmentGeneration = checkedSucc old.assignmentGeneration &&
      next.reviewerDigest = old.reviewerDigest && next.reviewAuthor = old.reviewAuthor &&
      next.approvalPolicy = old.approvalPolicy && !next.surrendered

def SyncCarryOver.validate (c : SyncCarryOver) : Bool :=
  [c.reviewedHead, c.head, c.baseCommit, c.mergeTree].all (fun sha =>
      sha.utf8ByteSize = 40 && sha.toList.all fun b => isAsciiDigit b || charIn 'a' 'f' b) &&
    c.reviewedHead ≠ c.head && (stripPrefix? c.reviewUrl "https://").isSome &&
    c.reviewUrl.utf8ByteSize ≤ 512

/-! ## Records -/

/-- The handoff that a record carries. -/
def ReviewStatePreimage.handoff (r : ReviewStatePreimage State Receipt) : Option ReviewHandoff :=
  match r.payload with
  | .reviewHandoff handoff => some handoff
  | _ => none

/-- The review loop state that a record carries. -/
def ReviewStatePreimage.loopState (r : ReviewStatePreimage State Receipt) : Option State :=
  match r.payload with
  | .reviewLoop state | .reviewLoopCorrection state _ | .reviewLoopAcceptance state _
  | .reviewLoopSupersession state _ => some state
  | _ => none

def computeDigest (host : Host State Receipt) (preimage : ReviewStatePreimage State Receipt) :
    String := host.sha256Digest (host.preimageText preimage)

def checkRecord (host : Host State Receipt) (record : ReviewStateRecord State Receipt) :
    Except ForgeError Unit := do
  ensure (record.schema = reviewStateSchema ∧
      computeDigest host record.toReviewStatePreimage = record.recordDigest)
    (stateConflict "review-state record digest is invalid")
  match record.payload with
  | .reviewHandoff handoff => validateHandoff host handoff
  | .reviewSyncCarryOver carryOver =>
    ensure (carryOver.validate ∧ carryOver.head = record.expectedHead ∧
        record.assignmentGeneration.isSome)
      (stateConflict "review-state carry-over is invalid")
  | _ =>
    match record.loopState with
    | some state => do
      host.validateReviewLoopState state
      ensure (host.headSha state = record.expectedHead ∨
          host.attemptedHeadSha state = some record.expectedHead)
        (stateConflict "review-loop state head differs from its enclosing record")
    | none => .ok ()

/-- The handoff that owns the review after some records: the last one among them. -/
def latest (records : List (ReviewStateRecord State Receipt)) : Option ReviewHandoff :=
  records.reverse.findSome? (·.handoff)

def children (byDigest : List (ReviewStateRecord State Receipt)) (previous : Option String) :
    List (ReviewStateRecord State Receipt) := byDigest.filter (·.previousDigest = previous)

/-! ## The walk -/

/-- A handoff that follows another one. -/
def checkTransition (record : ReviewStateRecord State Receipt) (old handoff : ReviewHandoff) :
    Except ForgeError Unit := do
  let nextGeneration ← orErr (checkedSucc old.assignmentGeneration)
    (stateConflict "assignment generation overflow")
  let same : Bool := handoff.assignmentGeneration = old.assignmentGeneration
  let next : Bool := handoff.assignmentGeneration = nextGeneration
  let transfer := validCoordinatorTransfer old handoff
  ensure (¬ ((handoff.coordinatorDigest ≠ old.coordinatorDigest ∨
          handoff.coordinatorTransfer.isSome) ∧ ¬ transfer ∨
        ¬ same ∧ ¬ next ∨
        same ∧ (¬ handoff.surrendered ∨ old.surrendered ∨ old.returnedReason.isSome ∨
          handoff.reviewerDigest ≠ old.reviewerDigest ∨
          handoff.approvalPolicy ≠ old.approvalPolicy ∨ handoff.returnedReason.isSome) ∨
        next ∧ handoff.returnedReason.isNone ∧ ¬ old.surrendered ∧ old.returnedReason.isNone ∧
          ¬ validScopeRefresh old handoff ∨
        record.assignmentGeneration ≠ some handoff.assignmentGeneration))
    (stateConflict "invalid designated ownership transition")

/-- The ownership rules for the next record of the walk, under the handoff that is active. -/
def checkOwnership (active : Option ReviewHandoff) (record : ReviewStateRecord State Receipt) :
    Except ForgeError Unit :=
  match record.handoff, active with
  | some handoff, some old => checkTransition record old handoff
  | some handoff, none =>
    ensure (handoff.assignmentGeneration = 1 ∧ ¬ handoff.surrendered ∧
        handoff.returnedReason = none ∧ handoff.coordinatorTransfer = none ∧
        record.assignmentGeneration = some 1)
      (stateConflict "invalid initial designated ownership")
  | none, some handoff =>
    ensure (record.assignmentGeneration = some handoff.assignmentGeneration ∧
        ¬ handoff.surrendered ∧ handoff.returnedReason = none)
      (stateConflict "stale designated assignment generation")
  | none, none =>
    ensure (record.assignmentGeneration = none)
      (stateConflict "assignment generation without an owner")

def admit_ (host : Host State Receipt) (ordered : List (ReviewStateRecord State Receipt))
    (record : ReviewStateRecord State Receipt) : Except ForgeError Unit := do
  ensure (record.generation = ordered.length)
    (stateConflict "review-state generation is not contiguous")
  checkOwnership (latest ordered) record
  host.validateCorrection ordered record
  host.validateSupersession ordered record
  host.validateAcceptance ordered record

def winsFork (active : ReviewHandoff) (nextGeneration : Nat)
    (record : ReviewStateRecord State Receipt) : Bool :=
  record.handoff.any (fun handoff =>
      handoff.assignmentGeneration = nextGeneration &&
        (handoff.coordinatorDigest = active.coordinatorDigest ||
          validCoordinatorTransfer active handoff) &&
        (handoff.returnedReason.isSome || validScopeRefresh active handoff)) &&
    record.assignmentGeneration = some nextGeneration

def competing : ForgeError := stateConflict "review-state chain contains competing generations"

variable [DecidableEq State] [DecidableEq Receipt]

def resolveFork (ordered candidates : List (ReviewStateRecord State Receipt)) :
    Except ForgeError
      (ReviewStateRecord State Receipt × List (ReviewStateRecord State Receipt)) := do
  let active ← orErr (latest ordered) competing
  let nextGeneration ← orErr (checkedSucc active.assignmentGeneration)
    (stateConflict "assignment generation overflow")
  match candidates.filter (winsFork active nextGeneration) with
  | [winner] => do
    let stale := candidates.filter (· ≠ winner)
    ensure (∀ record ∈ stale, record.assignmentGeneration = some active.assignmentGeneration)
      competing
    .ok (winner, stale)
  | _ => .error competing

/-- The record after the last one of `ordered`, with the records that are passed over. -/
def nextRecord (ordered candidates : List (ReviewStateRecord State Receipt)) :
    Except ForgeError
      (Option (ReviewStateRecord State Receipt × List (ReviewStateRecord State Receipt))) :=
  match candidates with
  | [] => .ok none
  | [only] => .ok (some (only, []))
  | candidates => some <$> resolveFork ordered candidates

def ignoreStale (byDigest : List (ReviewStateRecord State Receipt)) :
    Nat → List String → List String → List String
  | 0, _, ignored => ignored
  | _ + 1, [], ignored => ignored
  | fuel + 1, key :: stale, ignored =>
    if key ∈ ignored then ignoreStale byDigest fuel stale ignored
    else
      ignoreStale byDigest fuel ((children byDigest (some key)).map (·.recordDigest) ++ stale)
        (ignored ++ [key])

def walk (host : Host State Receipt) (byDigest : List (ReviewStateRecord State Receipt)) :
    Nat → List (ReviewStateRecord State Receipt) → List String →
      ReviewStateRecord State Receipt →
      Except ForgeError (List (ReviewStateRecord State Receipt) × List String)
  | 0, _, _, _ => .error (stateConflict "review-state walk is unfinished")
  | fuel + 1, ordered, ignored, record => do
    admit_ host ordered record
    let following ← nextRecord (ordered ++ [record])
      (children byDigest (some record.recordDigest))
    match following with
    | none => .ok (ordered ++ [record], ignored)
    | some (next, stale) =>
      walk host byDigest fuel (ordered ++ [record])
        (ignoreStale byDigest (stale.length + byDigest.length) (stale.map (·.recordDigest)) ignored)
        next

/-! ## The chain -/

def stateRecords (host : Host State Receipt) (repository : String) (pr : Nat) :
    List String → Except ForgeError (List (ReviewStateRecord State Receipt))
  | [] => .ok []
  | comment :: comments => do
    match ← host.parseStateMarker comment with
    | some record =>
      ensure (record.repository = repository ∧ record.pr = pr)
        (stateConflict "review-state record targets a different pull request")
      let records ← stateRecords host repository pr comments
      .ok (record :: records)
    | none => stateRecords host repository pr comments

def indexRecords (host : Host State Receipt) :
    List (ReviewStateRecord State Receipt) → List (ReviewStateRecord State Receipt) →
      Except ForgeError (List (ReviewStateRecord State Receipt))
  | byDigest, [] => .ok byDigest
  | byDigest, record :: records => do
    checkRecord host record
    match byDigest.find? (·.recordDigest = record.recordDigest) with
    | some existing =>
      ensure (existing = record)
        (stateConflict "review-state chain contains conflicting records with one digest")
      indexRecords host byDigest records
    | none => indexRecords host (byDigest ++ [record]) records

def parseChain (host : Host State Receipt) (repository : String) (pr : Nat)
    (comments : List String) : Except ForgeError (ReviewStateChain State Receipt) := do
  let records ← stateRecords host repository pr comments
  if records = [] then
    .ok ⟨[], none, []⟩
  else
    let byDigest ← indexRecords host [] records
    ensure (¬ ((∀ r ∈ records, r.assignmentGeneration = none) ∧
        ∃ r ∈ byDigest, 1 < (children byDigest r.previousDigest).length))
      competing
    match children byDigest none with
    | [root] => do
      let (ordered, ignored) ← walk host byDigest (byDigest.length + 1) [] [] root
      ensure (ordered.length + ignored.length = byDigest.length)
        (stateConflict "review-state chain contains unreachable records")
      .ok ⟨ordered, ordered.getLast?.map (·.recordDigest), sortBy textLe ignored⟩
    | _ =>
      .error (stateConflict "review-state chain does not have exactly one genesis record")

end

end NilsCli.Review
