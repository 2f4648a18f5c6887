import NilsCli.AutoResume.State

/-!
# The entry points besides the tick

Enabling and cancelling, the arming of a blocked turn, what the activity reports back, and what the
scheduler records (`auto_resume.rs`).
-/

namespace NilsCli.AutoResume

open Lib
open Coordination (CliError)
open Activity (Provider TurnState)

variable (agent : Provider) (facts : Facts) (file : Option DurableAutoResume)

variable (expectedLaunchId : String) (now : Int)

/-! ## Enabling -/

def stateUnavailable : Failure := .error (.dataErr "auto-resume-state-unavailable"
  "auto-resume projection is unavailable until this session runtime is restarted")

/-- `set_enabled_locked`. -/
def setEnabled (enabled : Bool) (policy : RecoveryPolicy) (now : Int) : Outcome := do
  ensure (¬(enabled ∧ facts.unhealthy)) stateUnavailable
  ensure (¬(enabled ∧ !supported agent facts)) (.error (.dataErr "auto-resume-unsupported"
    "this provider does not expose an authoritative structured auto-resume signal"))
  ensure (¬(enabled ∧ policy = .nextAccountThenResume ∧
    (agent ≠ .codex ∨ !facts.brokerConfigured ∨ facts.selectedAccount.isNone)))
    (.error (.dataErr "auto-resume-account-failover-unsupported"
      "account failover requires a bound Codex account"))
  if projectionUnavailable (readState file now) then
    if enabled then .error stateUnavailable else return .keeps
  else return .writes (cleared policy enabled now) [if enabled then .enabled else .disabled]

def applyServeDefault (policy : RecoveryPolicy) (now : Int) : Outcome :=
  if file.isSome then .ok .keeps
  else match setEnabled agent facts file true policy now with
    | .ok move => .ok move
    | .error (.error error) =>
      if error.code = "auto-resume-unsupported" ∨
          error.code = "auto-resume-account-failover-unsupported" ∨
          error.code = "auto-resume-state-unavailable" then .ok .keeps
      else .error (.error error)
    | .error .indexOutOfBounds => .error .indexOutOfBounds

/-- The account that the turn is bound to, for `blocked_account` and its revision. -/
def withBlockedAccount (state : DurableAutoResume) (account : Option (String × Nat)) :
    DurableAutoResume :=
  { state with
    blockedAccount := account.map (·.1)
    blockedAccountRevision := account.map (·.2)
    blockedBindingState := none }

/-- `input_binding_identity`. -/
def inputBinding : Except Failure (Option (String × Nat)) :=
  match facts.inputBinding with
  | .ok account => .ok account
  | .error error => .error (.error error)

/-- `rearm_usage_exhaustion_for_runtime`. -/
def rearmUsageExhaustion (turn : String) (revision : Nat) (now : Int) : Outcome := do
  ensure (runtimeMatches facts (some expectedLaunchId)) (.error (.dataErr
    "auto-resume-runtime-changed"
    "auto-resume mutation refused a replacement runtime incarnation"))
  ensure (!facts.unhealthy) stateUnavailable
  ensure (supported agent facts) (.error (.dataErr "auto-resume-unsupported"
    "this provider does not expose an authoritative structured usage-exhaustion signal"))
  let state := readState file now
  ensure (!projectionUnavailable state) stateUnavailable
  let account ← inputBinding facts
  return .writes (withBlockedAccount
    { cleared state.recoveryPolicy true now with
      state := .armed
      recoveryCause := some .usageExhaustion
      blockedTurnId := some turn
      blockedRevision := some revision } account) [.rearmed turn revision]

/-! ## Calling off -/

def cancel : Outcome := do
  let state := readState file now
  if projectionUnavailable state then return .keeps
  else
    ensure (state.state ≠ .resumed) (.error (.dataErr "auto-resume-already-submitted"
      "the continuation was already submitted"))
    return cancelWith state now none

/-- `cancel_active_locked`. -/
def cancelActive (reason : String) : Move :=
  let state := readState file now
  if state.enabled ∧ (state.state.claimable ∨ state.state = .checking) then
    cancelWith state now (some reason)
  else .keeps

/-- `cancel_for_manual_input_locked`. -/
def cancelForManualInput (activity : TurnState) (now : Int) : Move :=
  let state := readState file now
  if state.enabled ∧ state.state = .resumed then
    .writes (resetEnabledRecovery state now) [.reset]
  else if state.enabled ∧ state.state = .enabled ∧
      currentCapacityFailure (stateForView facts activity) then
    cancelWith state now (some "manual_input")
  else cancelActive file now "manual_input"

/-- `cancel_for_account_switch_locked`. -/
def cancelForAccountSwitch (activity : TurnState) (now : Int) : Move :=
  let state := readState file now
  if state.enabled ∧ state.state = .resumed ∧ state.recoveryCause = some .providerCapacity then
    .writes (resetEnabledRecovery state now) [.reset]
  else if state.enabled ∧ state.state = .enabled ∧
      currentCapacityFailure (stateForView facts activity) then
    cancelWith state now (some "account_switch")
  else cancelActive file now "account_switch"

/-- `fail_closed_projection_for_runtime`. -/
def failClosedProjection : Move :=
  let state := readState file now
  if runtimeMatches facts (some expectedLaunchId) ∧ state.enabled ∧
      (state.state = .enabled ∨ state.state.claimable ∨ state.state = .checking) then
    failTerminally { state with scheduledAt := none, nextCheckAt := none } now "state_unavailable"
  else .keeps

/-! ## Arming -/

def armUsageExhaustion (turn : String) (revision : Nat) (now : Int) : Outcome := do
  let state := readState file now
  -- a submission of the other cause that is under way may have been accepted
  let submitting := state.recoveryCause = some .providerCapacity ∧ state.state = .checking
  let known := state.blockedTurnId = some turn ∧ (state.state = .armed ∨ state.state = .scheduled ∨
    state.state = .checking ∨ state.state = .resumed ∨ state.state = .switchingAccount)
  if !supported agent facts ∨ !state.enabled ∨ submitting ∨ known then return .keeps
  else
    let preserved := decide (state.recoveryCause ≠ some .providerCapacity ∧
      state.recoveryPolicy = .nextAccountThenResume ∧ agent = .codex ∧ state.state = .resumed)
    let account ← inputBinding facts
    let armed := withBlockedAccount
      { state with
        state := .armed
        updatedAt := now
        scheduledAt := none
        nextCheckAt := none
        failureReason := none
        recoveryCause := some .usageExhaustion
        blockedTurnId := some turn
        blockedRevision := some revision } account
    return .writes
      (if preserved then armed
        else { armed with attempt := 0, everScheduled := false, attemptedAccounts := [] })
      [.armed .usageExhaustion turn revision preserved]

def capacityFailureOf (view : Option TurnState) (turn : String) (revision : Nat) : Bool :=
  view.any fun activity => activity.phase = .waiting && activity.revision = revision &&
    noAttention activity && activity.lastTurn.any fun last => last.outcome = .failed &&
      last.providerFailureKind = some "provider_capacity" && last.providerTurnId = some turn

def scheduleCapacity (state : DurableAutoResume) (turn : String) (revision : Nat) (now : Int)
    (preserved : Bool) : Outcome := do
  let state := if preserved then state else { state with attempt := 0, fallbackSchedules := 0 }
  let now ← epochString now
  let delay ← delayAt retryDelaysSeconds state.attempt
  let scheduledAt ← epochString (i64Add now delay)
  return .writes
    { recordCapacityBinding facts { state with
        state := .scheduled
        updatedAt := now
        scheduledAt := some scheduledAt
        nextCheckAt := none
        failureReason := none
        recoveryCause := some .providerCapacity
        blockedTurnId := some turn
        blockedRevision := some revision } with
      everScheduled := true
      attemptedAccounts := [] }
    [.armed .providerCapacity turn revision preserved]

def armProviderCapacity (expectedBinding : BindingSnapshot)
    (activity : TurnState) (turn : String) (revision : Nat) (now : Int) : Outcome :=
  let state := readState file now
  let submitting := state.recoveryCause = some .providerCapacity ∧ state.state = .checking
  let known := state.blockedTurnId = some turn ∧ state.recoveryCause = some .providerCapacity ∧
    (state.state = .scheduled ∨ state.state = .checking ∨ state.state = .resumed)
  if agent ≠ .codex ∨ !facts.codexRuntimeSupported ∨ !runtimeMatches facts (some expectedLaunchId) ∨
      facts.binding ≠ expectedBinding ∨ !state.enabled ∨ submitting ∨
      !capacityFailureOf (stateForView facts activity) turn revision ∨ known then .ok .keeps
  else
    let preserved := decide (state.recoveryCause = some .providerCapacity ∧ state.state = .resumed)
    if preserved ∧ maxTransientAttempts ≤ state.attempt then
      .ok (failTerminally { state with scheduledAt := none, nextCheckAt := none } now
        "capacity_retry_exhausted")
    else scheduleCapacity facts state turn revision now preserved

def completeProviderCapacityRecovery (completedRevision : Nat) (now : Int) : Move :=
  let state := readState file now
  if state.enabled ∧ state.state = .resumed ∧ state.recoveryCause = some .providerCapacity ∧
      state.blockedRevision.getD 0 < completedRevision then
    .writes (resetEnabledRecovery state now) [.reset]
  else .keeps

/-! ## The scheduler -/

inductive SchedulerReason
  | schedulerError
  | controlUnavailable

def SchedulerReason.text : SchedulerReason → String
  | .schedulerError => "scheduler_error"
  | .controlUnavailable => "control_unavailable"

/-- `record_scheduler_error_inner`. -/
def recordSchedulerError (expectedLaunchId : Option String) (nowEpoch : Int)
    (reason : SchedulerReason) : Outcome := do
  let now ← epochString nowEpoch
  let state := readState file now
  if !runtimeMatches facts expectedLaunchId then return .keeps
  else if facts.unhealthy then return failTerminally state now "state_unavailable"
  else if !state.enabled ∨ !state.state.claimable then return .keeps
  else if state.recoveryCause = some .providerCapacity then
    recordCapacitySchedulerRetry state now reason.text
  else recordRetry state now reason.text

/-- The time has come, or there is none. -/
def due (at_ : Option Int) (now : Int) : Bool := at_.all (· ≤ now)

/-- `wake_scheduled_if_usage_open_inner`. -/
def wakeScheduledIfUsageOpen (expectedLaunchId : Option String) (nowEpoch : Int) : Outcome := do
  let now ← epochString nowEpoch
  let state := readState file now
  if runtimeMatches facts expectedLaunchId ∧ state.enabled ∧ state.state = .scheduled ∧
      state.everScheduled ∧ !due state.scheduledAt now then
    return .writes { state with updatedAt := now, scheduledAt := some now } []
  else return .keeps

end NilsCli.AutoResume
