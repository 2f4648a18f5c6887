import NilsCli.Review.Append
import NilsCli.Review.Markers
import NilsCli.Review.Receipts

/-!
# Admission of a designated review

A merge waits for the report of the reviewer that the latest handoff names.
-/

namespace NilsCli.Review

open Lib

/-! ## Reviews -/

/-- A submitted review, as the provider lists it. -/
structure NativeReviewSummary where
  id : String
  databaseId : Option Nat
  url : String
  author : String
  authorNodeId : Option String
  authorType : Option String
  state : String
  commitSha : String
  submittedAt : String
  summary : List Char
  summaryTruncated : Bool

structure PrReviewsPayload where
  headSha : String
  currentHeadReviews : List NativeReviewSummary
  staleReviews : List NativeReviewSummary

def computeForPr (headSha : String) (reviews : List NativeReviewSummary) : PrReviewsPayload where
  headSha := headSha
  currentHeadReviews := reviews.filter (·.commitSha = headSha)
  staleReviews := reviews.filter fun r => ¬ r.commitSha = headSha

def eqIgnoreAsciiCase (a b : String) : Bool := toAsciiLowercase a = toAsciiLowercase b

def matchesDesignatedAuthor (review : NativeReviewSummary) (expected : String) : Bool :=
  let expectedBot := "[bot]".toList.isSuffixOf (toAsciiLowercase expected).toList
  if review.authorType.any fun kind => decide (kind = "Bot") ≠ expectedBot then false
  else if expectedBot then
    review.authorType = some "Bot" && review.authorNodeId.isSome &&
      (eqIgnoreAsciiCase review.author expected ||
        eqIgnoreAsciiCase review.author (.ofList (expected.toList.take (expected.length - 5))))
  else eqIgnoreAsciiCase review.author expected

/-- The order of `Option<u64>`. -/
def optionLe : Option Nat → Option Nat → Bool
  | none, _ => true
  | some _, none => false
  | some a, some b => a ≤ b

def submittedLe (a b : NativeReviewSummary) : Bool :=
  textLt a.submittedAt b.submittedAt ||
    (a.submittedAt = b.submittedAt && optionLe a.databaseId b.databaseId)

/-! ## The pull request -/

/-- A verified merge of the target branch. -/
structure SyncMerge where
  baseCommit : String
  mergeTree : String

/-- What admission takes from elsewhere. -/
structure AdmissionHost where
  /-- The merge that the git objects show from a reviewed head to another one. -/
  verifyMerge : String → String → Option SyncMerge
  verifyOnTarget : String → String → Bool
  providerBaseScope : Except ForgeError (String × String)
  /-- The body that the provider holds under a number, if the rest there is as listed. -/
  readBoundBody : Nat → NativeReviewSummary → String → Except ForgeError (List Char)
  nativeReviewContainsOnlyReplies : NativeReviewSummary → Except ForgeError Bool
  /-- The check of a report's Reviewable field against a commit. -/
  validateReviewable : List Char → String → Except ForgeError Unit
  validateSpecialistReviewReport : List Char → Except ForgeError Unit
  parseTimestamp : String → Option Int
  /-- The check of the tests at a head, given the reviewer and the report. -/
  testIntegrity : String → String → List Char → Except ForgeError Unit

inductive ApprovalState where
  | sourcePassed
  | finallyApproved
  deriving DecidableEq

structure PublishedApproval where
  state : ApprovalState
  reviewId : String
  reviewUrl : String
  reviewAuthor : String
  nativeState : String
  reviewedHead : String
  submittedAt : String
  deriving DecidableEq

def PublishedApproval.fromReview (review : NativeReviewSummary) (head : String) :
    PublishedApproval where
  state := if review.state = "APPROVED" ∧ review.commitSha = head then .finallyApproved
    else .sourcePassed
  reviewId := review.id
  reviewUrl := review.url
  reviewAuthor := review.author
  nativeState := review.state
  reviewedHead := review.commitSha
  submittedAt := review.submittedAt

structure Admission where
  approval : Option PublishedApproval
  syncCarryOver : Option SyncCarryOver
  deriving DecidableEq

def awaitingReview (message : String) : ForgeError :=
  fail "awaiting_designated_review" ("awaiting designated review: " ++ message)

def staleLedger : ForgeError := awaitingReview "ledger is stale or has unresolved findings"

/-! ## The chain -/

def ownedState (chain : LoopChain) : Option ReviewLoopState :=
  (chain.records.reverse.takeWhile (·.handoff.isNone)).findSome? (·.loopState)

/-- The lines of a body that bind it to a handoff. -/
def bindingMarkers (body : List Char) : List (List Char) :=
  ((textLines body).map trimmed).filter publicationBindingPrefix.isPrefixOf

def publicationIsKnownOtherInterval (chain : LoopChain) (body : List Char) : Bool :=
  match bindingMarkers body with
  | [marker] =>
    ((publicationBindingPrefix.isPrefixOf? marker).bind (markerClose.isSuffixOf? ·)).any fun digest =>
      decide (latestHandoffDigest chain ≠ some (.ofList digest)) &&
        chain.records.any fun record =>
          decide (record.recordDigest = .ofList digest) && record.handoff.isSome
  | _ => false

def hasOpenBlocking (state : ReviewLoopState) : Bool :=
  state.findings.values.any fun finding => finding.blocking && finding.status = .open_

variable (env : Surroundings) (host : AdmissionHost)

def verifySync (handoff : ReviewHandoff) (reviewedHead head : String) :
    Except ForgeError (Option SyncMerge) :=
  if reviewedHead = head then do
    let base ← env.providerBase
    ensure (base = handoff.baseSha)
      (fail "review_scope_changed" "provider base changed since designated review assignment")
    .ok none
  else do
    let merge ← orErr (host.verifyMerge reviewedHead head) staleLedger
    let scope ← host.providerBaseScope
    ensure (handoff.baseRef = scope.2) staleLedger
    ensure (host.verifyOnTarget handoff.baseSha scope.1) staleLedger
    ensure (host.verifyOnTarget merge.baseCommit scope.1) staleLedger
    .ok (some merge)

/-! ## Reports -/

def readCompleteReport (review : NativeReviewSummary) (expectedAuthor : String) :
    Except ForgeError (List Char) := do
  let id ← orErr review.databaseId (fail "review_snapshot_incomplete" "native review id is missing")
  host.readBoundBody id review expectedAuthor

def reportBody (expectedAuthor : String) (review : NativeReviewSummary) :
    Except ForgeError (List Char) :=
  if review.summaryTruncated ∨ review.authorType = some "Bot" ∨
      review.state = "COMMENTED" ∧ trimmed review.summary = [] then
    readCompleteReport host review expectedAuthor
  else .ok review.summary

def onlyReplies (review : NativeReviewSummary) (body : List Char) : Except ForgeError Bool :=
  if review.state = "COMMENTED" ∧ trimmed body = [] then host.nativeReviewContainsOnlyReplies review
  else .ok false

def passVerdicts : List (List Char) :=
  ["- Lens verdict: pass".toList, "- Lens verdict: follow-up-pass".toList]

def passes (after : Int) (review : NativeReviewSummary) (body : List Char) : Bool :=
  (match host.validateSpecialistReviewReport body with
    | .ok _ => true
    | .error _ => false) &&
    ["APPROVED", "COMMENTED"].contains review.state &&
    (host.parseTimestamp review.submittedAt).any (fun t => after < t) &&
    (textLines body).any fun line => passVerdicts.contains (trimmed line)

def verdict (chain : LoopChain) (after : Int) (review : NativeReviewSummary) (body : List Char) :
    Except ForgeError (Option (NativeReviewSummary × List Char)) :=
  match host.validateReviewable body review.commitSha with
  | .error _ =>
    .error (awaitingReview ("published review " ++ review.id ++ " has an invalid Reviewable field"))
  | .ok _ => do
    ensure (publicationMatchesInterval chain body)
      (fail "awaiting_designated_review"
        ("published review requires exactly one current handoff binding; the designated reviewer " ++
          "must republish through the current forge-cli"))
    .ok (if passes host after review body then some (review, body) else none)

def selectPass (chain : LoopChain) (expectedAuthor : String) (after : Int) :
    List NativeReviewSummary → Except ForgeError (Option (NativeReviewSummary × List Char))
  | [] => .ok none
  | review :: reviews => do
    let body ← reportBody host expectedAuthor review
    let replies ← onlyReplies host review body
    if replies || publicationIsKnownOtherInterval chain body then
      selectPass chain expectedAuthor after reviews
    else verdict host chain after review body

/-- The reviews of the reviewer on the head or, after a merge, on the reviewed one. -/
def candidates (expectedAuthor head reviewedHead : String) (synced : Bool)
    (reviews : PrReviewsPayload) : List NativeReviewSummary :=
  sortBy (fun a b => submittedLe b a)
    ((reviews.currentHeadReviews ++ reviews.staleReviews).filter fun r =>
      matchesDesignatedAuthor r expectedAuthor &&
        (r.commitSha = head || synced && r.commitSha = reviewedHead))

/-- The part of `admit_published` under a handoff. -/
def admitDesignated (head : String) (chain : LoopChain) (handoffCreatedAt : Option String)
    (reviews : PrReviewsPayload) (handoff : ReviewHandoff) : Except ForgeError Admission := do
  let state ← orErr (ownedState chain) (awaitingReview "reviewed-head ledger observation is missing")
  ensure (state.hardStop.isNone ∧ ¬ hasOpenBlocking state) staleLedger
  let sync ← verifySync env host handoff state.headSha head
  ensure (reviews.headSha = head)
    (fail "review_convergence_head_changed"
      "provider head changed during designated review admission")
  let after ← orErr (handoffCreatedAt.bind host.parseTimestamp)
    (fail "review_snapshot_incomplete" "handoff publication timestamp is missing or invalid")
  let passing ← selectPass host chain handoff.reviewAuthor after
    (candidates handoff.reviewAuthor head state.headSha sync.isSome reviews)
  let (selected, body) ← orErr passing
    (awaitingReview "published passing review for the current head is missing")
  host.testIntegrity head selected.author body
  .ok
    { approval := some (.fromReview selected head)
      syncCarryOver := sync.map fun merge =>
        { reviewUrl := selected.url, reviewedHead := state.headSha, head := head
          baseCommit := merge.baseCommit, mergeTree := merge.mergeTree } }

def admitPublished (texts : Host ReviewLoopState LoopReceipt) (head : String)
    (chain : LoopChain) (handoffCreatedAt : Option String) (reviews : PrReviewsPayload) :
    Except ForgeError Admission := do
  match ← assigned texts env chain.records with
  | none => .ok ⟨none, none⟩
  | some handoff => admitDesignated env host head chain handoffCreatedAt reviews handoff

end NilsCli.Review
