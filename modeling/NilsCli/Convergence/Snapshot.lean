import NilsCli.Lib.JsonSize
import NilsCli.Review.Admission

/-!
# The review snapshot of a merge

A merge that asks for review convergence looks at the reviews and the threads of the pull request
together.
-/

namespace NilsCli.Convergence

open Lib Review

variable (reviews : List NativeReviewSummary) (review : NativeReviewSummary)

/-- `ForgeError`, with its detail. -/
structure ForgeError extends Review.ForgeError where
  detail : Option String

inductive ReviewBotMode where
  | observed
  deriving DecidableEq

structure ReviewConvergenceBot where
  login : String
  mode : ReviewBotMode

variable (bots : List ReviewConvergenceBot)

/-- The periods count nanoseconds. -/
structure ReviewConvergencePolicy where
  require : Bool
  quietPeriod : Nat
  timeout : Nat
  bots : List ReviewConvergenceBot

structure PrReviewThreadComment where
  author : String
  body : List Char
  createdAt : String

structure PrReviewThreadSummary where
  id : String
  resolved : Bool
  outdated : Bool
  author : String
  path : String
  diffSide : Option String
  line : Option Nat
  startLine : Option Nat
  body : List Char
  comments : List PrReviewThreadComment

structure PrReviewThreadsPayload where
  headSha : Option String
  threads : List PrReviewThreadSummary

structure ReviewConvergenceSnapshot where
  required : Bool
  headSha : String
  observedReviews : List NativeReviewSummary
  staleReviews : List NativeReviewSummary
  semanticActivity : List String
  semanticDigest : String
  unresolvedThreads : Nat
  changesRequestedBy : List String
  missingReviewers : List String
  latestActivityAt : Option String
  quietUntil : Option String
  quietPeriodMs : Nat
  timeoutMs : Nat
  waitedMs : Nat
  bots : List ReviewConvergenceBot

/-- What a snapshot takes from elsewhere. -/
structure SnapshotHost where
  sha256Digest : String → String
  /-- A text as `{:?}` prints it. -/
  debugText : String → String

/-- A digest that is the text itself. -/
def textHost : SnapshotHost := ⟨id, id⟩

/-! ## Effective reviews -/

def opinionated (state : String) : Bool :=
  state = "CHANGES_REQUESTED" ∨ state = "APPROVED" ∨ state = "DISMISSED"

def reviewIdentity : String :=
  let login := toAsciiLowercase (trim review.author)
  if login = "" then "review:" ++ review.id else login

def reviewDisplayIdentity : String :=
  if trim review.author = "" then "review:" ++ review.id else review.author

def reviewOrder (left right : NativeReviewSummary) : Ordering :=
  (compare left.submittedAt right.submittedAt).then
    ((compare left.databaseId right.databaseId).then (compare left.id right.id))

def latestWith (latest : SortedMap String NativeReviewSummary) (review : NativeReviewSummary) :
    SortedMap String NativeReviewSummary :=
  if !opinionated review.state then latest
  else if (latest.find? (reviewIdentity review)).all fun current =>
      reviewOrder review current = .gt then
    latest.insert (reviewIdentity review) review
  else latest

def latestReviews : SortedMap String NativeReviewSummary :=
  reviews.foldl latestWith .empty

def effectiveChangesRequestedBy : List String :=
  ((latestReviews reviews).values.filter fun review =>
    eqIgnoreAsciiCase review.state "CHANGES_REQUESTED").map reviewDisplayIdentity

/-! ## Observed bots -/

def normalizedLogin (login : String) : String :=
  match "[bot]".toList.isSuffixOf? (trim login).toList with
  | some name => toAsciiLowercase (.ofList name)
  | none => toAsciiLowercase (trim login)

def isObservedLogin (author : String) (bots : List ReviewConvergenceBot) : Bool :=
  bots.any fun bot => bot.mode = .observed && normalizedLogin bot.login = normalizedLogin author

def reviewIsObservedBot : Bool :=
  review.authorType.all (· = "Bot") && isObservedLogin review.author bots

def threadAuthorIsObservedBot (author : String) (bots : List ReviewConvergenceBot)
    (nonBotAuthors : List String) : Bool :=
  !nonBotAuthors.contains (toAsciiLowercase (trim author)) && isObservedLogin author bots

def hasThreadDispositionMarker (body : List Char) : Bool :=
  (textLines body).any fun line =>
    match threadDispositionMarkerPrefix.isPrefixOf? (trimmed line) >>= markerClose.isSuffixOf? with
    | some thread => thread ≠ []
    | none => false

def meaningfulThreadComment (body : List Char) : Bool :=
  !hasThreadDispositionMarker body && trimmed (stripOwnedMarkers body) ≠ []

def reviewIsSemantic : Bool :=
  opinionated review.state || trimmed (stripOwnedMarkers review.summary) ≠ []

/-! ## Activity -/

/-- `{}` of a `bool`. -/
def boolText (b : Bool) : List Char := if b then "true".toList else "false".toList

def debugOption : Option (List Char) → List Char
  | some value => "Some(".toList ++ value ++ [')']
  | none => "None".toList

def reviewLabel : List Char := "review:".toList

def threadLabel : List Char := "thread:".toList

/-- The text of one review. -/
def reviewActivity : List Char :=
  reviewLabel ++ ((normalizedLogin review.author).toList ++ ':' :: (review.state.toList ++
    ':' :: (review.commitSha.toList ++ ':' :: (boolText review.summaryTruncated ++
      ':' :: stripOwnedMarkers review.summary))))

def semanticReviews : List NativeReviewSummary :=
  reviews.filter fun review => reviewIsObservedBot review bots && reviewIsSemantic review

def activityFingerprint : List String :=
  sortDedup ((semanticReviews reviews bots).map fun review => .ofList (reviewActivity review))

def meaningfulComments (nonBotAuthors : List String)
    (thread : PrReviewThreadSummary) : List PrReviewThreadComment :=
  thread.comments.filter fun comment =>
    threadAuthorIsObservedBot comment.author bots nonBotAuthors &&
      meaningfulThreadComment comment.body

/-- The text of one comment. -/
def commentActivity (comment : PrReviewThreadComment) : List Char :=
  (normalizedLogin comment.author).toList ++ ':' :: stripOwnedMarkers comment.body

variable (host : SnapshotHost)

variable (policy : ReviewConvergencePolicy) (reviews : PrReviewsPayload)
  (threads : PrReviewThreadsPayload)

def threadActivity (thread : PrReviewThreadSummary) (comments : List (List Char)) : List Char :=
  threadLabel ++ (thread.id.toList ++ ':' :: (thread.path.toList ++
    ':' :: (debugOption (thread.diffSide.map fun side => (host.debugText side).toList) ++
      ':' :: (debugOption (thread.line.map jsonNat) ++
        ':' :: (debugOption (thread.startLine.map jsonNat) ++ ':' :: ['|'].intercalate comments)))))

def openThreads (threads : List PrReviewThreadSummary) : List PrReviewThreadSummary :=
  threads.filter fun thread => !thread.resolved && !thread.outdated

def combinedActivityFingerprint (reviews : List NativeReviewSummary)
    (threads : List PrReviewThreadSummary) (bots : List ReviewConvergenceBot)
    (nonBotAuthors : List String) : List String :=
  sortDedup (activityFingerprint reviews bots ++ (openThreads threads).filterMap fun thread =>
    let comments := meaningfulComments bots nonBotAuthors thread
    if comments = [] then none
    else some (.ofList (threadActivity host thread (comments.map commentActivity))))

def hasNewActivity (previous current : List String) : Bool :=
  current.any fun item => !previous.contains item

/-! ## The snapshot -/

/-- The last of the latest texts. -/
def maxText : List String → Option String
  | [] => none
  | text :: texts => some (texts.foldl (fun latest text => if textLe latest text then text else latest) text)

def durationMs (duration : Nat) : Nat := min (duration / 1000000) (2 ^ 64 - 1)

/-- The logins of the actors that are no bots. -/
def nonBotAuthors : List String :=
  ((reviews.currentHeadReviews ++ reviews.staleReviews).filter fun review =>
    review.authorType.any (· ≠ "Bot")).map fun review => toAsciiLowercase (trim review.author)

/-- The reviews of users and of observed bots. -/
def observedReviews (reviews : List NativeReviewSummary) : List NativeReviewSummary :=
  reviews.filter fun review =>
    review.authorType = some "User" || reviewIsObservedBot review policy.bots

/-- The activity of a snapshot. -/
def semanticActivity : List String :=
  combinedActivityFingerprint host (observedReviews policy reviews.currentHeadReviews)
    threads.threads policy.bots (nonBotAuthors reviews)

/-- The digest of the activity, as a JSON list. -/
def semanticDigest (activity : List String) : String :=
  host.sha256Digest (.ofList (jsonArray (activity.map jsonString)))

/-- When the latest activity happened. -/
def latestActivityAt : Option String :=
  let review := maxText (((semanticReviews (observedReviews policy reviews.currentHeadReviews)
    policy.bots).map (·.submittedAt)).filter (· ≠ ""))
  let thread := maxText ((((openThreads threads.threads).flatMap
    (meaningfulComments policy.bots (nonBotAuthors reviews))).map (·.createdAt)).filter (· ≠ ""))
  maxText (review.toList ++ thread.toList)

def buildSnapshot (waitedMs : Nat) : ReviewConvergenceSnapshot where
  required := policy.require
  headSha := reviews.headSha
  observedReviews := observedReviews policy reviews.currentHeadReviews
  staleReviews := observedReviews policy reviews.staleReviews
  semanticActivity := semanticActivity host policy reviews threads
  semanticDigest := semanticDigest host (semanticActivity host policy reviews threads)
  unresolvedThreads := (openThreads threads.threads).length
  changesRequestedBy := effectiveChangesRequestedBy reviews.currentHeadReviews
  missingReviewers := []
  latestActivityAt := latestActivityAt policy reviews threads
  quietUntil := none
  quietPeriodMs := durationMs policy.quietPeriod
  timeoutMs := durationMs policy.timeout
  waitedMs := waitedMs
  bots := policy.bots

/-! ## Errors -/

/-- `ForgeError::validation` and `ForgeError::unavailable`. -/
def failure (kind message detail : String) : ForgeError :=
  { kind := kind, message := message, detail := some detail }

def ensureThreadHead : Except ForgeError Unit :=
  ensure (threads.headSha = some reviews.headSha)
    (failure "review_convergence_head_changed"
      "native review and thread snapshots are not bound to the same provider head"
      ("review_head=" ++ reviews.headSha ++ "; thread_head=" ++
        threads.headSha.getD "<missing>"))

def changesRequestedError (snapshot : ReviewConvergenceSnapshot) : ForgeError :=
  failure "review_changes_requested" "one or more current-head native reviews request changes"
    ("changes_requested_by=" ++ ",".intercalate snapshot.changesRequestedBy)

def timeoutError (expectedHeadSha : Option String) : ForgeError :=
  failure "review_convergence_timeout" "native review convergence exceeded the configured timeout"
    ("head_sha=" ++ expectedHeadSha.getD "<unknown>" ++ "; quiet_period_ms=" ++
      toString (durationMs policy.quietPeriod) ++ "; timeout_ms=" ++
      toString (durationMs policy.timeout))

def mapProviderTimeout (err : ForgeError) (policy : ReviewConvergencePolicy)
    (expectedHeadSha : Option String) : ForgeError :=
  if err.kind = "backend_timeout" then timeoutError policy expectedHeadSha else err

def ensureExpectedHead (expectedHeadSha : Option String) (reviews : PrReviewsPayload) :
    Except ForgeError Unit :=
  ensure (∀ expected ∈ expectedHeadSha, expected = reviews.headSha)
    (failure "review_convergence_head_changed"
      "the provider PR head changed during review convergence"
      ("expected_head=" ++ expectedHeadSha.getD "<missing>" ++ " provider_head=" ++ reviews.headSha))

/-! A review and an open thread of an observed bot. -/

def botPolicy : ReviewConvergencePolicy :=
  ⟨true, 1000000000, 20000000000, [⟨"ci", .observed⟩]⟩

def botReview (summary : List Char) : NativeReviewSummary where
  id := "R1"
  databaseId := some 1
  url := "pull/7#1"
  author := "ci[bot]"
  authorNodeId := none
  authorType := none
  state := "COMMENTED"
  commitSha := "h"
  submittedAt := "4Z"
  summary := summary
  summaryTruncated := false

def botComment (body : String) : PrReviewThreadComment :=
  ⟨"ci[bot]", body.toList, "4Z"⟩

def botThread (bodies : List String) : PrReviewThreadSummary where
  id := "T1"
  resolved := false
  outdated := false
  author := "ci[bot]"
  path := "a"
  diffSide := none
  line := some 10
  startLine := none
  body := (bodies.headI).toList
  comments := bodies.map botComment

def botReviews : PrReviewsPayload := ⟨"h", [botReview "ok".toList], []⟩

def botThreads (bodies : List String) : PrReviewThreadsPayload :=
  ⟨some "h", [botThread bodies]⟩

end NilsCli.Convergence
