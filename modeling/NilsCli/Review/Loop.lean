import Mathlib.Data.String.Basic
import NilsCli.Lib.SortedMap
import NilsCli.Review.Ledger

/-!
# The review loop

The reviews of a pull request run in rounds. `observeReviewLoop` takes in what a reviewer has seen of
the findings at a head: an ordinary observation moves the loop to that head, within three budgets.
-/

namespace NilsCli.Review

open Lib

/-! ## Data -/

inductive ReviewFindingStatus where
  | open_
  | fixed
  | accepted
  | preference
  | followUp
  deriving DecidableEq

structure ReviewLoopBudget where
  maxRepairRounds : Nat
  maxNoProgressRounds : Nat
  maxAutoReopensPerFingerprint : Nat
  deriving DecidableEq

def ReviewLoopBudget.default : ReviewLoopBudget := ⟨5, 2, 0⟩

structure ReviewLoopFinding where
  rootCauseFingerprint : Option String
  status : ReviewFindingStatus
  blocking : Bool
  firstSeenHead : String
  lastSeenHead : String
  seenCount : Nat
  reopenCount : Nat
  threads : List String
  deriving DecidableEq

structure ReviewLoopExtension where
  proposalDigest : String
  approvalReference : String
  budgetField : String
  increment : Nat
  deriving DecidableEq

structure ReviewLoopHardStop where
  code : String
  budgetField : String
  increment : Nat
  proposalDigest : String
  attemptedHeadSha : String
  observationDigest : String
  extensionApplied : Bool
  deriving DecidableEq

/-- The findings of a review at a head, and what its rounds have used up. -/
structure ReviewLoopState where
  headSha : String
  round : Nat
  noProgressRounds : Nat
  budget : ReviewLoopBudget
  findings : SortedMap String ReviewLoopFinding
  extensions : List ReviewLoopExtension
  hardStop : Option ReviewLoopHardStop
  deriving DecidableEq

structure ReviewFindingObservation where
  fingerprint : String
  rootCauseFingerprint : Option String
  blocking : Bool
  status : ReviewFindingStatus
  threads : List String
  deriving DecidableEq

/-- The state that a transition of the loop leads to, and whether it is a new one. -/
structure ReviewLoopTransition where
  state : ReviewLoopState
  changed : Bool
  deriving DecidableEq

structure LoopHost where
  sha256Hex : String → String
  /-- The schema, a head and the canonical rows observed there. -/
  observationText : String → SortedMap String ReviewFindingObservation → String
  /-- The schema, the tip of the ledger, a stop's code and budget field, and the increment. -/
  proposalText : String → String → String → Nat → String
  /-- The schema of a supersession, the tip of the ledger and the digest of the new attempt. -/
  supersessionText : Option String → String → String
  /-- The schema of an acceptance, the stopped record, the head, and the rows attempted and kept. -/
  acceptanceText : String → String → SortedMap String ReviewFindingObservation →
    SortedMap String ReviewFindingObservation → String
  /-- The path and the fragment of a URL. -/
  parseUrl : String → Option (String × Option String)

variable (host : LoopHost)

variable (previous : ReviewLoopState) (expectedHead : String)
  (observation : ReviewFindingObservation) (current : SortedMap String ReviewFindingObservation)

/-- `sha256_digest`. -/
def LoopHost.sha256Digest (text : String) : String := "sha256:" ++ host.sha256Hex text

def reviewObservationDigest (observations : SortedMap String ReviewFindingObservation) : String :=
  host.sha256Digest (host.observationText expectedHead observations)

/-! ## Rows -/

def stablePart (part : String) : Bool :=
  part ≠ "" && !startsWith part '-' && !endsWith part '-' &&
    part.toList.all fun c => isAsciiLower c || isAsciiDigit c || c = '-'

def validateLifecycleFingerprint (fingerprint : String) : Except ForgeError Unit :=
  let parts := splitAt fingerprint ':'
  ensure (parts.length = 3 ∧ parts.all stablePart) (fail "review_fingerprint_collision"
    "lifecycle fingerprint must have <category>:<component>:<invariant> form")

def validateRoot (root : Option String) : Except ForgeError Unit :=
  match root with
  | some root => validateLifecycleFingerprint root
  | none => .ok ()

/-- The identity that a row is about: its root cause, or else its own fingerprint. -/
def ReviewFindingObservation.lifecycle : String :=
  observation.rootCauseFingerprint.getD observation.fingerprint

/-- A row as the loop compares it: only open rows block, and the threads are sorted. -/
def ReviewFindingObservation.canonical : ReviewFindingObservation :=
  { observation with
    blocking := observation.blocking && decide (observation.status = .open_)
    threads := sortDedup observation.threads }

def canonicalRows : List ReviewFindingObservation → SortedMap String ReviewFindingObservation →
    Except ForgeError (SortedMap String ReviewFindingObservation)
  | [], result => .ok result
  | observation :: observations, result => do
    validateLifecycleFingerprint observation.fingerprint
    validateRoot observation.rootCauseFingerprint
    ensure ((result.find? observation.lifecycle).all (· = observation.canonical))
      (fail "review_fingerprint_collision"
        "one lifecycle identity describes incompatible observations")
    canonicalRows observations (result.insert observation.lifecycle observation.canonical)

def canonicalObservations (observations : List ReviewFindingObservation) :
    Except ForgeError (SortedMap String ReviewFindingObservation) :=
  canonicalRows observations .empty

/-! ## States -/

def stopBudgetField (code : String) : Option String :=
  if code = "review_round_limit_exceeded" then some "max_repair_rounds"
  else if code = "review_no_progress" then some "max_no_progress_rounds"
  else if code = "review_finding_reopened" then some "max_auto_reopens_per_fingerprint"
  else none

def validateFinding (fingerprint : String) (finding : ReviewLoopFinding) :
    Except ForgeError Unit := do
  validateLifecycleFingerprint fingerprint
  validateRoot finding.rootCauseFingerprint
  ensure (finding.rootCauseFingerprint.all (· = fingerprint))
    (stateConflict "review-loop finding map key differs from its root-cause identity")
  ensure (finding.firstSeenHead ≠ "" ∧ finding.lastSeenHead ≠ "" ∧ finding.seenCount ≠ 0)
    (stateConflict "review-loop finding lifecycle counters are invalid")

/-- The checks of each row in turn. -/
def checkRows {ν : Type} (check : String → ν → Except ForgeError Unit) :
    List (String × ν) → Except ForgeError Unit
  | [] => .ok ()
  | row :: rows => do
    check row.1 row.2
    checkRows check rows

def ReviewLoopHardStop.valid (stop : ReviewLoopHardStop) : Bool :=
  stopBudgetField stop.code = some stop.budgetField && stop.increment = 1 &&
    stop.proposalDigest ≠ "" && stop.attemptedHeadSha ≠ "" && stop.observationDigest ≠ ""

def validateReviewLoopState (state : ReviewLoopState) : Except ForgeError Unit := do
  ensure (state.headSha ≠ "") (stateConflict "review-loop state head is empty")
  checkRows validateFinding state.findings.rows
  ensure (state.hardStop.all (·.valid)) (stateConflict "review-loop hard-stop record is invalid")

/-! ## Observations -/

def observationMatchesState (state : ReviewLoopState)
    (observations : SortedMap String ReviewFindingObservation) : Bool :=
  let active := state.findings.rows.filter fun row => row.2.lastSeenHead = state.headSha
  active.length = observations.size &&
    observations.rows.all fun row => active.any fun finding => finding.1 = row.1 &&
      finding.2.rootCauseFingerprint = row.2.rootCauseFingerprint &&
      finding.2.status = row.2.status && finding.2.blocking = row.2.blocking &&
      row.2.threads.all fun thread => finding.2.threads.contains thread

def mismatchError (stop : ReviewLoopHardStop) (expectedHead : String) : ForgeError :=
  let recovery :=
    if stop.attemptedHeadSha = expectedHead then
      "replay the original canonical inventory (observation_digest=" ++ stop.observationDigest ++
        ") with forge-cli pr review-loop observe <PR> --expected-head " ++ expectedHead ++
        " --expected-state <current-tip> --findings-file <original-findings.json>" ++
        (if stop.extensionApplied then
          "; the approved extension is already applied and must not be extended again"
        else
          "; first obtain the exact maintainer approval and run forge-cli pr review-loop extend for the current stop")
    else
      "if " ++ stop.attemptedHeadSha ++ ".." ++ expectedHead ++
        " is a provider-verified signed fast-forward, prepare a " ++
        "forge-cli.review-loop-supersession.v1 findings file with reason signed-fast-forward " ++
        "and superseded_record set to the latest stopped review-loop record digest (not the handoff tip); " ++
        "run forge-cli pr review-loop observe <PR> --expected-head " ++ expectedHead ++
        " --expected-state <current-tip> --findings-file <supersession.json>; " ++
        "then obtain fresh maintainer approval for the new proposal and run " ++
        "forge-cli pr review-loop extend <PR> --expected-head " ++ expectedHead ++
        " --expected-state <new-stop-tip> --stop-code <new-stop-code> " ++
        "--budget-field <new-stop-field> --increment <new-stop-increment> " ++
        "--proposal-digest <new-proposal> --approval-comment <new-approval-id>; " ++
        "resume the identical new inventory with observe at the returned tip; " ++
        "an unsupported head change cannot reuse the old approval"
  stateConflict ("a different observation cannot replace the durable review hard stop; " ++
    "recovery=run forge-cli pr review-loop inspect <PR> --format json; " ++ recovery ++
    "; reviewer rebinding does not clear the stop or grant budget")

def hardStopError (stop : ReviewLoopHardStop) : ForgeError :=
  fail (if (stopBudgetField stop.code).isSome then stop.code else "review_state_conflict")
    "the durable review-loop hard stop is still active"

def resumed : Except ForgeError ReviewLoopState :=
  match previous.hardStop with
  | none => .ok previous
  | some stop => do
    ensure (stop.attemptedHeadSha = expectedHead ∧
        stop.observationDigest = reviewObservationDigest host expectedHead current)
      (mismatchError stop expectedHead)
    ensure stop.extensionApplied (hardStopError stop)
    .ok { previous with hardStop := none }

/-- A finding that is seen for the first time. -/
def newFinding : ReviewLoopFinding where
  rootCauseFingerprint := observation.rootCauseFingerprint
  status := observation.status
  blocking := decide (observation.status = .open_) && observation.blocking
  firstSeenHead := expectedHead
  lastSeenHead := expectedHead
  seenCount := 1
  reopenCount := 0
  threads := observation.threads

/-- The rows at the first head of a loop. -/
def firstState : ReviewLoopState where
  headSha := expectedHead
  round := 0
  noProgressRounds := 0
  budget := .default
  findings := current.mapVal (newFinding expectedHead)
  extensions := []
  hardStop := none

def fixedNeedsHead : ForgeError :=
  stateConflict "a fixed disposition requires a repaired head; already fixed findings may be omitted or repeated on the same head"

def checkSameHead (fingerprint : String) (finding : ReviewLoopFinding) : Except ForgeError Unit :=
  if finding.status ≠ .open_ then .ok ()
  else do
    let observation ← orErr (current.find? fingerprint)
      (stateConflict "same-head observation cannot omit an open finding")
    ensure (observation.status ≠ .fixed) fixedNeedsHead
    ensure (¬ (finding.blocking ∧ observation.status = .open_ ∧ ¬ observation.blocking))
      (stateConflict "same-head observation cannot implicitly clear an open blocking finding")

/-- The open findings that block. -/
def openBlocking {ν : Type} (status : ν → ReviewFindingStatus) (blocking : ν → Bool)
    (m : SortedMap String ν) : Nat :=
  m.values.countP fun v => decide (status v = .open_) && blocking v

/-- What a row makes of the finding of its key. -/
def observeFinding (budget : ReviewLoopBudget) (expectedHead : String) (headChanged : Bool)
    (finding : Option ReviewLoopFinding) (observation : ReviewFindingObservation) :
    Except ForgeError ReviewLoopFinding :=
  match finding with
  | none => .ok (newFinding expectedHead observation)
  | some finding => do
    ensure (finding.rootCauseFingerprint = observation.rootCauseFingerprint)
      (fail "review_fingerprint_collision"
        "a lifecycle fingerprint changed root-cause identity")
    let reopened := decide (finding.status = .fixed) && decide (observation.status = .open_)
    let reopenCount := if reopened then u32Succ finding.reopenCount else finding.reopenCount
    ensure (reopened → reopenCount ≤ budget.maxAutoReopensPerFingerprint)
      (fail "review_finding_reopened" "a fixed lifecycle finding reappeared")
    let threads := sortDedup (finding.threads ++ observation.threads)
    if observation.status = .fixed ∧ ¬ headChanged then
      if finding.status = .fixed then .ok { finding with reopenCount, threads }
      else .error fixedNeedsHead
    else
      .ok { finding with
        status := observation.status
        blocking := decide (observation.status = .open_) && observation.blocking
        lastSeenHead := expectedHead
        seenCount := u32Succ finding.seenCount
        reopenCount, threads }

def nextRound (headChanged : Bool) : Nat :=
  if headChanged then (previous.round + 1) % 2 ^ 32 else previous.round

def nextNoProgress (headChanged : Bool)
    (current : SortedMap String ReviewFindingObservation) : Nat :=
  let previousBlocking := openBlocking (·.status) (·.blocking) previous.findings
  let currentBlocking := openBlocking (·.status) (·.blocking) current
  if headChanged ∧ 0 < currentBlocking ∧ previousBlocking ≤ currentBlocking then
    u32Succ previous.noProgressRounds
  else if headChanged then 0 else previous.noProgressRounds

/-- A round: both budgets are checked first, then every row. -/
def advance : Except ForgeError ReviewLoopTransition := do
  let headChanged := decide (previous.headSha ≠ expectedHead)
  ensure (nextRound previous headChanged ≤ previous.budget.maxRepairRounds)
    (fail "review_round_limit_exceeded" "review repair-round budget is exhausted")
  ensure (nextNoProgress previous headChanged current ≤ previous.budget.maxNoProgressRounds)
    (fail "review_no_progress"
      "the blocking finding set did not shrink within the configured budget")
  let findings ← SortedMap.upsertAll
    (fun _ => observeFinding previous.budget expectedHead headChanged) current.rows
    previous.findings
  let state : ReviewLoopState :=
    { headSha := expectedHead
      round := nextRound previous headChanged
      noProgressRounds := nextNoProgress previous headChanged current
      budget := previous.budget
      findings
      extensions := previous.extensions
      hardStop := none }
  .ok ⟨state, state ≠ previous⟩

/-- The open findings that the rows leave out. -/
def missing : List String :=
  (previous.findings.rows.filter fun row =>
    row.2.status = .open_ && (current.find? row.1).isNone).map (·.1)

def observeFrom : Except ForgeError ReviewLoopTransition :=
  if previous.headSha ≠ expectedHead then do
    ensure (missing previous current = []) (fail "review_observation_incomplete"
      "observation omits open findings; include their current dispositions")
    advance previous expectedHead current
  else if observationMatchesState previous current then .ok ⟨previous, false⟩
  else do
    checkRows (checkSameHead current) previous.findings.rows
    advance previous expectedHead current

/-- The first observation makes the state; a later one is of a stopped loop, a repetition or a round. -/
def observeReviewLoop (previous : Option ReviewLoopState) (expectedHead : String)
    (observations : List ReviewFindingObservation) : Except ForgeError ReviewLoopTransition := do
  ensure (trim expectedHead ≠ "") (stateConflict "review-loop observation head is empty")
  let current ← canonicalObservations observations
  match previous with
  | none => .ok ⟨firstState expectedHead current, true⟩
  | some previous => do
    validateReviewLoopState previous
    let previous ← resumed host previous expectedHead current
    observeFrom previous expectedHead current

/-! ## Stops and extensions -/

def incrementInvalid : ForgeError :=
  fail "review_extension_invalid" "review budget extension increment must be between 1 and 100"

def budgetFieldInvalid : ForgeError :=
  fail "review_extension_invalid" "unknown review budget field"

def extensionProposalDigest (stateTipDigest stopCode budgetField : String) (increment : Nat) :
    Except ForgeError String := do
  ensure (¬ (increment = 0 ∨ 100 < increment)) incrementInvalid
  ensure (["max_repair_rounds", "max_no_progress_rounds",
    "max_auto_reopens_per_fingerprint"].contains budgetField) budgetFieldInvalid
  .ok (host.sha256Digest (host.proposalText stateTipDigest stopCode budgetField increment))

/-- The refused attempt is recorded with the proposal that would extend the budget. -/
def recordReviewLoopHardStop (attemptedHead : String)
    (observations : List ReviewFindingObservation) (stateTipDigest : String) (error : ForgeError) :
    Except ForgeError ReviewLoopState := do
  let budgetField ← orErr (stopBudgetField error.kind)
    (stateConflict "only a budget hard stop can be recorded for extension")
  let current ← canonicalObservations observations
  let proposalDigest ← extensionProposalDigest host stateTipDigest error.kind budgetField 1
  .ok { previous with
    hardStop := some
      { code := error.kind
        budgetField
        increment := 1
        proposalDigest
        attemptedHeadSha := attemptedHead
        observationDigest := reviewObservationDigest host attemptedHead current
        extensionApplied := false } }

/-- `checked_add` of an unsigned 32-bit counter. -/
def checkedAdd32 (n m : Nat) : Except ForgeError Nat :=
  if n + m ≤ u32Max then .ok (n + m)
  else .error (fail "review_extension_invalid" "review budget extension overflowed")

/-- The budget with one of its fields increased. -/
def ReviewLoopBudget.extend (budget : ReviewLoopBudget) (budgetField : String) (increment : Nat) :
    Except ForgeError ReviewLoopBudget :=
  if budgetField = "max_repair_rounds" then
    (checkedAdd32 budget.maxRepairRounds increment).map fun n =>
      { budget with maxRepairRounds := n }
  else if budgetField = "max_no_progress_rounds" then
    (checkedAdd32 budget.maxNoProgressRounds increment).map fun n =>
      { budget with maxNoProgressRounds := n }
  else if budgetField = "max_auto_reopens_per_fingerprint" then
    (checkedAdd32 budget.maxAutoReopensPerFingerprint increment).map fun n =>
      { budget with maxAutoReopensPerFingerprint := n }
  else .error budgetFieldInvalid

/-- An extension fits the recorded stop exactly, and is consumed once. -/
def applyReviewLoopExtension
    (proposalDigest approvalReference stopCode budgetField : String) (increment : Nat) :
    Except ForgeError ReviewLoopState := do
  let hardStop ← orErr previous.hardStop (fail "review_extension_invalid"
    "review budget extension requires a durable hard-stop record")
  ensure (¬ (hardStop.extensionApplied ∨ hardStop.code ≠ stopCode ∨
      hardStop.budgetField ≠ budgetField ∨ hardStop.increment ≠ increment ∨
      hardStop.proposalDigest ≠ proposalDigest ∨ stopBudgetField stopCode ≠ some budgetField))
    (fail "review_extension_invalid"
      "the extension does not match the current durable hard stop")
  ensure (¬ previous.extensions.any (·.proposalDigest = proposalDigest))
    (fail "review_extension_replayed"
      "the review budget extension proposal was already consumed")
  ensure (¬ (increment = 0 ∨ 100 < increment)) incrementInvalid
  let budget ← previous.budget.extend budgetField increment
  .ok { previous with
    budget
    extensions := previous.extensions ++
      [{ proposalDigest, approvalReference, budgetField, increment }]
    hardStop := some { hardStop with extensionApplied := true } }

def ceilingProposal (state : ReviewLoopState) (tip : String) : Except ForgeError (Option String) :=
  if state.hardStop.isSome ∨ state.noProgressRounds ≠ state.budget.maxNoProgressRounds ∨
      openBlocking (·.status) (·.blocking) state.findings = 0 then .ok none
  else
    (extensionProposalDigest host tip "review_no_progress" "max_no_progress_rounds" 1).map some

/-- The branch of `run_extend` for a state without a stop, after the approval was found. -/
def extendCeiling (tip proposalDigest approvalReference stopCode
    budgetField : String) (increment : Nat) : Except ForgeError ReviewLoopState := do
  let proposal ← ceilingProposal host previous tip
  let digest ← orErr proposal
    (fail "review_extension_invalid" "the current state is not at the no-progress ceiling")
  ensure (stopCode = "review_no_progress" ∧ budgetField = "max_no_progress_rounds" ∧ increment = 1 ∧
      proposalDigest = digest)
    (fail "review_extension_invalid" "the extension does not match the current ceiling proposal")
  let budget ← previous.budget.extend budgetField increment
  .ok { previous with
    budget
    extensions := previous.extensions ++
      [{ proposalDigest, approvalReference, budgetField, increment }] }

end NilsCli.Review
