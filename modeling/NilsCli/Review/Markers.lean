import NilsCli.Review.Anchors
import NilsCli.Review.Ledger

/-!
# Owned markers

A review and its threads carry markers: lines that name the review run, the digest of the text under
them and the handoff that the report was written for.
-/

namespace NilsCli.Review

open Lib

variable (line body : List Char)

/-! ## Texts -/

def trimEnd (text : List Char) : List Char := text.rdropWhile isWhitespace

/-- `str::trim`. -/
def trimmed (text : List Char) : List Char := (trimEnd text).dropWhile isWhitespace

/-- `join("\n")`. -/
def joined (lines : List (List Char)) : List Char := ['\n'].intercalate lines

/-! ## Markers -/

def stateMarkerOpen : List Char := "<!-- forge-cli:review-state:v1 ".toList

def markerClose : List Char := " -->".toList

def reviewRunMarkerPrefix : List Char := "<!-- forge-cli:review-run:v1 run=".toList

def findingMarkerPrefix : List Char := "<!-- forge-cli:review-finding:v1 run=".toList

def threadDispositionMarkerPrefix : List Char := "<!-- forge-cli:thread-disposition:v1 thread=".toList

def publicationBindingPrefix : List Char := "<!-- forge-cli:review-handoff:v1 ".toList

def digestLabel : List Char := " digest=".toList

def reviewRunMarker (reviewRunId : List Char) : List Char :=
  reviewRunMarkerPrefix ++ reviewRunId ++ markerClose

def findingMarker (reviewRunId bodyDigest : List Char) : List Char :=
  findingMarkerPrefix ++ reviewRunId ++ digestLabel ++ bodyDigest ++ markerClose

/-- The review run that a line names. -/
def runIdOf : Option (List Char) := do
  let rest ← reviewRunMarkerPrefix.isPrefixOf? (trimmed line)
  let value ← markerClose.isSuffixOf? rest
  if value ≠ [] ∧ ¬ value.any isWhitespace then some value else none

def parseReviewRunId : Option (List Char) := (textLines body).findSome? runIdOf

def findingOf : Option (List Char × List Char) := do
  let rest ← findingMarkerPrefix.isPrefixOf? (trimmed line)
  let rest ← markerClose.isSuffixOf? rest
  let (run, digest) ← splitOnce digestLabel rest
  if run = [] ∨ digest = [] then none else some (run, digest)

def parseFindingMarker : Option (List Char × List Char) :=
  (textLines body).findSome? findingOf

/-- A line that `strip_owned_markers` takes out. -/
def ownedMarker : Bool :=
  reviewRunMarkerPrefix.isPrefixOf (trimmed line) || findingMarkerPrefix.isPrefixOf (trimmed line) ||
    threadDispositionMarkerPrefix.isPrefixOf (trimmed line) || stateMarkerOpen.isPrefixOf (trimmed line)

/-- The lines that are no owned markers. -/
def unownedLines : List (List Char) :=
  (textLines body).filter fun line => !ownedMarker line

def stripOwnedMarkers : List Char := trimEnd (joined (unownedLines body))

/-! ## Reviews and threads -/

inductive ReviewThreadSubjectType where
  | line
  | file

def ReviewThreadDiffSide.asStr : ReviewThreadDiffSide → String
  | .left => "LEFT"
  | .right => "RIGHT"

def ReviewThreadSubjectType.asStr : ReviewThreadSubjectType → String
  | .line => "LINE"
  | .file => "FILE"

structure PreparedReviewThreadSpec where
  path : String
  body : List Char
  line : Option Nat
  side : ReviewThreadDiffSide
  startLine : Option Nat
  startSide : Option ReviewThreadDiffSide
  subjectType : ReviewThreadSubjectType

structure ReviewCommentManifestItem where
  index : Nat
  path : String
  line : Option Nat
  side : String
  startLine : Option Nat
  startSide : Option String
  subjectType : String
  bodyDigest : String

variable {State Receipt : Type} (host : Host State Receipt)

variable (chain : ReviewStateChain State Receipt) (body : List Char)

def semanticDigest : String :=
  host.sha256Digest (.ofList (stripOwnedMarkers body))

def reviewManifestItem (index : Nat) (spec : PreparedReviewThreadSpec) :
    ReviewCommentManifestItem where
  index := index
  path := spec.path
  line := spec.line
  side := spec.side.asStr
  startLine := spec.startLine
  startSide := spec.startSide.map (·.asStr)
  subjectType := spec.subjectType.asStr
  bodyDigest := semanticDigest host spec.body

def markedReviewBody (reviewRunId : List Char) : List Char :=
  if body = [] then reviewRunMarker reviewRunId else reviewRunMarker reviewRunId ++ '\n' :: body

def markedReviewThreadSpec (spec : PreparedReviewThreadSpec) (reviewRunId : List Char)
    (manifest : ReviewCommentManifestItem) : PreparedReviewThreadSpec :=
  { spec with
    body := findingMarker reviewRunId manifest.bodyDigest.toList ++
      '\n' :: stripOwnedMarkers spec.body }

/-! ## The handoff of a report -/

def latestHandoffDigest : Option String :=
  (chain.records.reverse.find? (·.handoff.isSome)).map (·.recordDigest)

def publicationBinding (digest : String) : List Char :=
  publicationBindingPrefix ++ digest.toList ++ markerClose

/-- A line that binds a report to a handoff. -/
def bindingLine (line : List Char) : Bool := publicationBindingPrefix.isPrefixOf (trimmed line)

def bindNativeReport : List Char :=
  match latestHandoffDigest chain with
  | none => body
  | some digest =>
    let summary := joined ((textLines body).filter fun line => !bindingLine line)
    trimEnd summary ++ '\n' :: '\n' :: publicationBinding digest

def publicationMatchesInterval : Bool :=
  let markers := ((textLines body).map trimmed).filter publicationBindingPrefix.isPrefixOf
  markers.length = 1 &&
    (latestHandoffDigest chain).any fun digest => markers.head? = some (publicationBinding digest)

end NilsCli.Review
