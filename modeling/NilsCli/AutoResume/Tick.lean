import NilsCli.AutoResume.Entries

/-!
# The tick of the scheduler

`tick_inner`: a due claim is checked against the usage of the provider, scheduled again, failed over
to another account, or submitted.
-/

namespace NilsCli.AutoResume

open Lib
open Coordination (CliError)
open Activity (Provider TurnState)

structure UsageSnapshot where
  authoritative : Bool
  hasExhaustedWindows : Bool
  exhaustedResetEpochs : List Int
  soonestResetEpoch : Option Int

structure Tick where
  /-- `TickFences`. -/
  launchId : Option String
  binding : Option BindingSnapshot
  failoverAccount : Option String
  now : Int
  usage : UsageSnapshot

def boundedJitterSeconds (digestByte : String → Nat) (turn : String) : Int :=
  (digestByte turn % 31 : Nat)

def unknownResetProbeDelaySeconds (fallbackSchedules : Nat) : Except Failure Int :=
  delayAt unknownResetProbeDelaysSeconds
    (min fallbackSchedules (unknownResetProbeDelaysSeconds.length - 1))

variable (agent : Provider) (digestByte : String → Nat) (facts : Facts) (tick : Tick)
  (state : DurableAutoResume)

def jitter : Int := boundedJitterSeconds digestByte (state.blockedTurnId.getD "")

def failsOver : Bool := state.recoveryPolicy = .nextAccountThenResume && agent = .codex

/-- The account to fail over to: another one than the bound one, and not attempted before. -/
def failoverTarget : Option String :=
  if failsOver agent state ∧
      (!currentAccountChanged facts state ∨ tick.usage.hasExhaustedWindows) then
    tick.failoverAccount.filter fun account =>
      facts.selectedAccount ≠ some account && !state.attemptedAccounts.contains account
  else none

def switchAccount (account : String) : Move :=
  let current := facts.selectedAccount.toList.filter (!state.attemptedAccounts.contains ·)
  .writes { state with
    attemptedAccounts := state.attemptedAccounts ++ current ++ [account]
    state := .switchingAccount
    updatedAt := tick.now
    scheduledAt := none
    nextCheckAt := none
    failureReason := none
    everScheduled := true } [.accountQueued account]

def scheduleReset : Outcome := do
  match tick.usage.exhaustedResetEpochs.max? with
  | none => recordRetry state tick.now "exhausted_reset_unavailable"
  | some latestReset =>
    let wake ← epochString (max latestReset (i64Add tick.now 1) + jitter digestByte state)
    return .writes { state with
      state := .scheduled
      updatedAt := tick.now
      scheduledAt := some wake
      nextCheckAt := none
      failureReason := if state.recoveryPolicy = .nextAccountThenResume then
        some "no_account_available" else none
      everScheduled := true
      fallbackSchedules := 0 } [.scheduled]

/-- The next reset of any window, or a probe. -/
def fallbackReset : Except Failure (Option Int) := do
  match tick.usage.soonestResetEpoch.filter (tick.now < ·) with
  | some reset => return some reset
  | none =>
    if agent = .claude then
      let delay ← unknownResetProbeDelaySeconds state.fallbackSchedules
      return some (i64Add tick.now delay)
    else return none

/-- No window is exhausted although the provider said so: the claim is scheduled once. -/
def scheduleFallback : Outcome := do
  match ← fallbackReset agent tick state with
  | none => recordRetry state tick.now "usage_window_not_exhausted"
  | some reset =>
    let wake ← epochString (reset + jitter digestByte state)
    return .writes { state with
      state := .scheduled
      updatedAt := tick.now
      scheduledAt := some wake
      nextCheckAt := none
      failureReason := none
      attempt := 0
      everScheduled := true
      fallbackSchedules := u32Succ state.fallbackSchedules } [.scheduled]

def usageMove : Option Outcome :=
  if !tick.usage.authoritative then some (recordRetry state tick.now "usage_unavailable")
  else if failsOver agent state ∧ !blockedAccountIdentityAvailable state then
    some (recordRetry state tick.now "state_unavailable")
  else if state.state = .switchingAccount ∧ facts.nextTransition = .pending then some (.ok .keeps)
  else if state.state = .switchingAccount ∧ facts.nextTransition ≠ .absent then
    some (.ok (failTerminally state tick.now "account_switch_failed"))
  else match failoverTarget agent facts tick state with
  | some account => some (.ok (switchAccount facts tick state account))
  | none =>
    if tick.usage.hasExhaustedWindows then some (scheduleReset digestByte tick state)
    else if failsOver agent state ∧ !currentAccountChanged facts state then
      some (recordRetry state tick.now "no_account_available")
    else if !state.everScheduled ∧ !currentAccountChanged facts state then
      some (scheduleFallback agent digestByte tick state)
    else none

def capacityMove : Option Outcome :=
  if maxTransientAttempts ≤ state.attempt then
    some (.ok (failTerminally state tick.now "capacity_retry_exhausted"))
  else if !capacityBindingMatches facts state then
    some (.ok (failTerminally state tick.now "account_changed"))
  else none

/-- A fallible part of the session record. -/
def liftError {α : Type} : Except CliError α → Except Failure α
  | .ok a => .ok a
  | .error error => .error (.error error)

/-- The claim is written before it is submitted. -/
def claim (activity : TurnState) : Outcome := do
  if !blockedClaimIsEligible (stateForView facts activity) state then
    return failTerminally state tick.now "session_state_changed"
  else
    liftError facts.healthFence
    if facts.unhealthy then return failTerminally state tick.now "state_unavailable"
    else
      if agent = .codex then liftError facts.authorization
      return .claims { state with
        attempt := if state.recoveryCause = some .providerCapacity then u32Succ state.attempt
          else state.attempt
        state := .checking
        updatedAt := tick.now
        scheduledAt := none
        nextCheckAt := none }

/-- A claim that is due. -/
def advance (activity : TurnState) : Outcome :=
  let move := if state.recoveryCause = some .providerCapacity then capacityMove facts tick state
    else usageMove agent digestByte facts tick state
  match move with
  | some outcome => outcome
  | none => claim agent facts tick state activity

/-- What an enabled claim is due for. -/
def advanceDue (activity : TurnState) : Outcome :=
  if state.enabled ∧ state.state.claimable ∧ due state.nextCheckAt tick.now ∧
      due state.scheduledAt tick.now then advance agent digestByte facts tick state activity
  else .ok .keeps

/-- A submission that a scheduler left: the activity says whether it was accepted. -/
def recoverSubmission (activity : TurnState) : Move :=
  if (stateForView facts activity).any (state.blockedRevision.getD 0 < ·.revision) then
    .writes { state with state := .resumed, updatedAt := tick.now, failureReason := none } []
  else failTerminally state tick.now "submission_outcome_unknown"

/-- A terminal state of an older release is armed again while the session still waits. -/
def recoverLegacy (activity : TurnState) : Outcome :=
  if !blockedClaimIsEligible (stateForView facts activity) state then
    .ok (.writes
      { state with failureReason := some "session_state_changed", updatedAt := tick.now } [.failed])
  else advanceDue agent digestByte facts tick { state with
    enabled := true
    state := .armed
    updatedAt := tick.now
    failureReason := none
    attempt := 0
    everScheduled := false } activity

/-- `tick_inner` up to the submission. -/
def tickInner (file : Option DurableAutoResume) (fenced : Bool) (activity : TurnState) :
    Outcome := do
  let now ← epochString tick.now
  let state := readState file now
  if !runtimeMatches facts tick.launchId ∨ tick.binding.any (facts.binding ≠ ·) ∨ fenced then
    return .keeps
  else if !supported agent facts then return failTerminally state now "provider_unsupported"
  else if state.state = .checking then return recoverSubmission facts tick state activity
  else if agent = .claude ∧ legacyUsageWindowTerminal state then
    recoverLegacy agent digestByte facts tick state activity
  else advanceDue agent digestByte facts tick state activity

def publish (file : Option DurableAutoResume) (claim : DurableAutoResume) (accepted : Bool)
    (now : Int) : Move :=
  if readState file now ≠ claim then .keeps
  else if accepted then
    .writes { claim with
      state := .resumed
      updatedAt := now
      failureReason := none
      fallbackSchedules := if claim.recoveryCause = some .providerCapacity then 0
        else claim.fallbackSchedules } []
  else failTerminally claim now "submission_outcome_unknown"

end NilsCli.AutoResume
