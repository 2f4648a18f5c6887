import NilsCli.Lib.Text
import NilsCli.Lib.Value

/-!
# Prompt receipts (`prompt_receipts.rs`, `prompt_receipts/store.rs`)

Two files for each key (session, incarnation, request id): the claim, which is written before the
dispatch and never removed, and the result.
-/

namespace NilsCli.Prompts

open Lib

inductive Outcome
  | submitted
  | commandDispatched
  | refused
  | unknown
  deriving DecidableEq

inductive ConfirmationDiagnostic
  | acceptanceUnobservable
  | nativeInputUnconfirmed

structure ComposerCleanup where
  cleared : Bool
  remainingInput : String

inductive Unobserved
  | captureFailed
  | paneUnparsable
  | composerNotLocated
  | regionNotSingleRow
  | footerDialogHint
  | queuedHintNotAdmitted
  | pastePlaceholder
  | suggestionLiteralUnstyled
  | rowUnrecognized

structure Receipt where
  requestId : String
  sessionId : String
  sessionIncarnation : String
  outcome : Outcome
  code : Option String
  composerCleanup : Option ComposerCleanup
  observation : Option Unobserved
  confirmationDiagnostic : Option ConfirmationDiagnostic

/-- Session, incarnation and request id. -/
structure Key where
  sessionId : String
  incarnation : String
  requestId : String
  deriving DecidableEq

def Receipt.key (receipt : Receipt) : Key :=
  ⟨receipt.sessionId, receipt.sessionIncarnation, receipt.requestId⟩

def outcomeUnknown : String := "structured-prompt-outcome-unknown"

def Receipt.unknown (key : Key) : Receipt where
  requestId := key.requestId
  sessionId := key.sessionId
  sessionIncarnation := key.incarnation
  outcome := .unknown
  code := some outcomeUnknown
  composerCleanup := none
  observation := none
  confirmationDiagnostic := some .acceptanceUnobservable

/-- The provider's acknowledgement of an input, kept until its history confirms it. -/
structure NativeProof where
  version : Nat
  identity : String
  turnId : String
  fingerprint : String
  historySessionId : Option String
  deriving DecidableEq

structure ResultRecord where
  receipt : Receipt
  status : Nat
  queued : Bool
  historyTurnId : Option String
  historySessionId : Option String
  nativeConfirmation : Option NativeProof

def ResultRecord.unknown (receipt : Receipt) : ResultRecord where
  receipt := receipt
  status := 500
  queued := false
  historyTurnId := none
  historySessionId := none
  nativeConfirmation := none

def ResultRecord.key (result : ResultRecord) : Key := result.receipt.key

def ResultRecord.outcome (result : ResultRecord) : Outcome := result.receipt.outcome

/-! ## The response of the dispatch -/

structure Response where
  status : Nat
  body : Value

def Response.isSuccess (response : Response) : Bool :=
  decide (200 ≤ response.status) && decide (response.status < 300)

/-- Indexing: null where there is no such member. -/
def member (value : Value) (key : String) : Value := (value.get key).getD .null

def isTrue : Value → Bool
  | .bool b => b
  | _ => false

def isFalse : Value → Bool
  | .bool b => !b
  | _ => false

def ComposerCleanup.fromDetails (details : Value) : Option ComposerCleanup :=
  match member details "cleared", (member details "remaining_input").asStr with
  | .bool cleared, some remaining =>
    if ["empty", "pasted_text", "different_text", "unobservable"].any (· = remaining) then
      some ⟨cleared, remaining⟩
    else none
  | _, _ => none

def Unobserved.parse : String → Option Unobserved
  | "capture-failed" => some captureFailed
  | "pane-unparsable" => some paneUnparsable
  | "composer-not-located" => some composerNotLocated
  | "region-not-single-row" => some regionNotSingleRow
  | "footer-dialog-hint" => some footerDialogHint
  | "queued-hint-not-admitted" => some queuedHintNotAdmitted
  | "paste-placeholder" => some pastePlaceholder
  | "suggestion-literal-unstyled" => some suggestionLiteralUnstyled
  | "row-unrecognized" => some rowUnrecognized
  | _ => none

/-- A unit variant is read from its name, or from an object with its name and null. -/
def Unobserved.fromValue : Value → Option Unobserved
  | .string name => parse name
  | .object [(name, .null)] => parse name
  | _ => none

/-- Identifiers of turns that `classify` accepts. -/
def acceptedTurnId (id : String) : Bool := trim id ≠ "" && decide (id.utf8ByteSize ≤ 256)

def acceptedHistorySessionId (id : String) : Bool :=
  trim id ≠ "" && decide (id.utf8ByteSize ≤ 256) && !id.toList.any (fun c => c = '/' || c = '\\') &&
    !containsText id "://"

/-- The turn and the session of the history, which are kept together or not at all. -/
def historyBinding (data : Value) : Option String × Option String :=
  match (member data "history_turn_id").asStr.filter acceptedTurnId,
    (member data "history_session_id").asStr.filter acceptedHistorySessionId with
  | some turnId, some sessionId => (some turnId, some sessionId)
  | _, _ => (none, none)

def refusalCodes : List String :=
  ["busy", "empty-prompt", "prompt-too-large", "unsafe-prompt-control",
    "session-incarnation-conflict", "structured-prompt-unsupported",
    "structured-prompt-unavailable", "agent-blocked"]

def safeGuardRefusal (details : Value) : Bool :=
  (member details "stage").asStr.any (· = "admission") && isFalse (member details "pasted") &&
    isFalse (member details "submitted")

def classify (response : Response) (receipt : Receipt) : ResultRecord :=
  let data := member response.body "data"
  let error := member response.body "error"
  let details := member error "details"
  let code := (member error "code").asStr.getD ""
  if response.isSuccess && isTrue (member data "command_dispatched") then
    { receipt := { receipt with
        outcome := .commandDispatched, code := none, confirmationDiagnostic := none }
      status := response.status
      queued := false
      historyTurnId := none
      historySessionId := none
      nativeConfirmation := none }
  else if response.isSuccess && isTrue (member data "submitted") then
    { receipt := { receipt with outcome := .submitted, code := none, confirmationDiagnostic := none }
      status := response.status
      queued := isTrue (member data "queued")
      historyTurnId := (historyBinding data).1
      historySessionId := (historyBinding data).2
      nativeConfirmation := none }
  else
    let receipt := { receipt with composerCleanup := ComposerCleanup.fromDetails details }
    if safeGuardRefusal details || refusalCodes.any (· = code) then
      { receipt := { receipt with
          outcome := .refused
          code := some code
          observation := Unobserved.fromValue (member details "observation")
          confirmationDiagnostic := none }
        status := response.status
        queued := false
        historyTurnId := none
        historySessionId := none
        nativeConfirmation := none }
    else if response.status = 409 then { ResultRecord.unknown receipt with status := 409 }
    else .unknown receipt

/-- What `submit` writes: an unknown outcome keeps the proof that the dispatch observed. -/
def dispatchResult (response : Response) (proof : Option NativeProof) (receipt : Receipt) :
    ResultRecord :=
  let result := classify response receipt
  if result.outcome = .unknown then
    match proof with
    | some proof => { result with
        receipt := { result.receipt with confirmationDiagnostic := some .nativeInputUnconfirmed }
        nativeConfirmation := some proof }
    | none => result
  else result

def unstored (result : ResultRecord) : ResultRecord :=
  .unknown { result.receipt with
    outcome := .unknown
    code := some outcomeUnknown
    confirmationDiagnostic := some .acceptanceUnobservable }

/-! ## The store -/

structure ClaimRecord where
  fingerprint : String
  receipt : Receipt

/-- A claim file: partial, or with its record. -/
inductive ClaimFile
  | torn
  | complete (record : ClaimRecord)

/-- The files of one key. -/
structure Files where
  claim : Option ClaimFile
  result : Option ResultRecord

structure Host where
  /-- `fingerprint` of a text and `require_idle`. -/
  fingerprint : String × Bool → String
  /-- The JSON of the result fits the bytes that `read` takes. -/
  fits : ResultRecord → Bool

section
variable (host : Host)

def lookup (files : Files) (receipt : Receipt) : Option ResultRecord :=
  match files.claim with
  | none => none
  | some _ => some (((files.result.filter host.fits).filter (·.key = receipt.key)).getD
      (.unknown receipt))

/-- The claim that a file holds. -/
def ClaimFile.record : ClaimFile → Option ClaimRecord
  | torn => none
  | complete record => some record

def claimFingerprint (files : Files) (receipt : Receipt) : Option String :=
  ((files.claim.bind (·.record)).filter (·.receipt.key = receipt.key)).map (·.fingerprint)

def confirmationIsCurrent (files : Files) (result : ResultRecord) : Bool :=
  match result.nativeConfirmation, files.claim.bind (·.record) with
  | some proof, some claim =>
    claim.fingerprint = proof.fingerprint && claim.receipt.key = result.key &&
      (lookup host files result.receipt).any fun current =>
        current.outcome = .unknown && current.nativeConfirmation = some proof
  | _, _ => false

/-- The check of `publish_confirmed_by_client_id`. -/
def unresolved (files : Files) (result : ResultRecord) : Bool :=
  (lookup host files result.receipt).any fun current =>
    current.outcome = .unknown && current.nativeConfirmation.isNone

def reconcilable (files : Files) (result : ResultRecord) : Bool :=
  result.outcome = .unknown &&
    if result.nativeConfirmation.isSome then confirmationIsCurrent host files result
    else (claimFingerprint files result.receipt).isSome

def publishable (files : Files) (result : ResultRecord) : Bool :=
  if result.nativeConfirmation.isSome then confirmationIsCurrent host files result
  else unresolved host files result

def confirmedBinding (result : ResultRecord) (turnId : String) (sessionId : Option String) :
    Option String × Option String :=
  match result.nativeConfirmation with
  | some proof => (some proof.turnId, proof.historySessionId)
  | none => (some turnId, sessionId)

/-- `publish`: the result that is written. -/
def published (result : ResultRecord) (binding : Option String × Option String) : ResultRecord where
  receipt := { result.receipt with
    outcome := .submitted, code := none, confirmationDiagnostic := none }
  status := 200
  queued := false
  historyTurnId := binding.1
  historySessionId := binding.2
  nativeConfirmation := none

end

/-! ## Keys and outcomes -/

@[simp] theorem Receipt.key_unknown (key : Key) : (Receipt.unknown key).key = key := rfl

@[simp] theorem ResultRecord.key_unknown (receipt : Receipt) :
    (ResultRecord.unknown receipt).key = receipt.key := rfl

@[simp] theorem published_key (result : ResultRecord) (binding : Option String × Option String) :
    (published result binding).key = result.key := rfl

@[simp] theorem published_outcome (result : ResultRecord)
    (binding : Option String × Option String) :
    (published result binding).outcome = .submitted := rfl

@[simp] theorem unstored_key (result : ResultRecord) : (unstored result).key = result.key := rfl

@[simp] theorem unstored_outcome (result : ResultRecord) : (unstored result).outcome = .unknown :=
  rfl

theorem classify_key (response : Response) (receipt : Receipt) :
    (classify response receipt).key = receipt.key := by
  unfold classify
  dsimp only
  split
  · rfl
  split
  · rfl
  split
  · rfl
  split
  · rfl
  · rfl

theorem dispatchResult_key (response : Response) (proof : Option NativeProof) (receipt : Receipt) :
    (dispatchResult response proof receipt).key = receipt.key := by
  unfold dispatchResult
  dsimp only
  split
  · split
    · exact classify_key response receipt
    · exact classify_key response receipt
  · exact classify_key response receipt

section
variable {host : Host} {files : Files} {receipt : Receipt} {result : ResultRecord}

theorem lookup_key (h : lookup host files receipt = some result) : result.key = receipt.key := by
  unfold lookup at h
  split at h
  next => cases h
  next =>
    cases h
    cases hstored : (files.result.filter host.fits).filter (·.key = receipt.key) with
    | none => rfl
    | some stored => simpa using (Option.filter_eq_some_iff.mp hstored).2

theorem lookup_eq_none : lookup host files receipt = none ↔ files.claim = none := by
  unfold lookup
  split
  next hclaim => simp [hclaim]
  next claim hclaim => simp [hclaim]

/-- A stored result of the key is what is looked up. -/
theorem lookup_stored {claim : ClaimFile} (hclaim : files.claim = some claim)
    (hresult : files.result = some result) (hfits : host.fits result)
    (hkey : result.key = receipt.key) : lookup host files receipt = some result := by
  simp [lookup, hclaim, hresult, Option.filter, hfits, hkey]

end

end NilsCli.Prompts
