import NilsCli.Activity.Types
import NilsCli.Lib.Guard

/-!
# Automatic resumption of a blocked turn

`crates/agent-session/src/auto_resume.rs`: a turn that failed because the usage or the capacity of
its provider was exhausted is continued later without the user.
-/

namespace NilsCli.AutoResume

open Lib
variable (facts : Facts) (state : DurableAutoResume) (now : Int) (reason : String)

open Coordination (CliError)
open Activity (Provider TurnState)

/-! ## The durable state -/

inductive RecoveryPolicy
  | waitForReset
  | nextAccountThenResume
  deriving DecidableEq

inductive RecoveryCause
  | usageExhaustion
  | providerCapacity
  deriving DecidableEq

inductive RecoveryState
  | disabled
  | enabled
  | armed
  | scheduled
  | checking
  | resumed
  | transientFailure
  | switchingAccount
  | cancelled
  | terminalFailure
  deriving DecidableEq

inductive BindingState
  | unbound
  | bound
  | blocked
  deriving DecidableEq

structure DurableAutoResume where
  enabled : Bool
  recoveryPolicy : RecoveryPolicy
  state : RecoveryState
  updatedAt : Int
  scheduledAt : Option Int
  nextCheckAt : Option Int
  failureReason : Option String
  recoveryCause : Option RecoveryCause
  blockedTurnId : Option String
  blockedRevision : Option Nat
  blockedAccount : Option String
  blockedAccountRevision : Option Nat
  blockedBindingState : Option BindingState
  attempt : Nat
  everScheduled : Bool
  fallbackSchedules : Nat
  attemptedAccounts : List String
  deriving DecidableEq

def maxTransientAttempts : Nat := 5

def retryDelaysSeconds : List Int := [30, 60, 120, 300, 600]

def unknownResetProbeDelaysSeconds : List Int := [300, 900, 1800, 3600]

@[grind] def defaultState : DurableAutoResume where
  enabled := false
  recoveryPolicy := .waitForReset
  state := .disabled
  updatedAt := now
  scheduledAt := none
  nextCheckAt := none
  failureReason := none
  recoveryCause := none
  blockedTurnId := none
  blockedRevision := none
  blockedAccount := none
  blockedAccountRevision := none
  blockedBindingState := none
  attempt := 0
  everScheduled := false
  fallbackSchedules := 0
  attemptedAccounts := []

/-- `read_state` of a file that is there or not. -/
def readState (file : Option DurableAutoResume) (now : Int) : DurableAutoResume :=
  file.getD (defaultState now)

@[grind] def cleared (policy : RecoveryPolicy) (enabled : Bool) (now : Int) : DurableAutoResume :=
  { defaultState now with
    enabled
    recoveryPolicy := policy
    state := if enabled then .enabled else .disabled }

@[grind] def resetEnabledRecovery : DurableAutoResume :=
  cleared state.recoveryPolicy true now

/-! ## What the session record says -/

inductive BindingSnapshot
  | unbound
  | bound (account : String) (revision : Nat)
  | blocked
  deriving DecidableEq

inductive NextTransitionState
  | absent
  | pending
  | failed
  | invalid
  deriving DecidableEq

/-- What the session record, the account broker and the runtime say while the lock is held. -/
structure Facts where
  launchId : Option String
  profileSupported : Bool
  codexRuntimeSupported : Bool
  unhealthy : Bool
  brokerConfigured : Bool
  selectedAccount : Option String
  binding : BindingSnapshot
  nextTransition : NextTransitionState
  /-- `input_binding_identity`. -/
  inputBinding : Except CliError (Option (String × Nat))
  /-- `acquire_runtime_health_fence`. -/
  healthFence : Except CliError Unit
  /-- `authorize_proxy_input_locked`, or `authorize_input_locked`. -/
  authorization : Except CliError Unit
  /-- The activity can be read. -/
  activityReadable : Bool

def runtimeMatches (expectedLaunchId : Option String) : Bool :=
  expectedLaunchId.all fun expected => facts.launchId = some expected

def supported (agent : Provider) (facts : Facts) : Bool :=
  facts.profileSupported && (agent = .claude || facts.codexRuntimeSupported)

def stateForView (activity : TurnState) : Option TurnState :=
  if facts.activityReadable then some activity else none

/-- No question is pending in the current turn. -/
def noAttention (activity : TurnState) : Bool :=
  (activity.currentTurn.bind (·.attention)).isNone

def blockedClaimIsEligible (view : Option TurnState) (state : DurableAutoResume) : Bool :=
  view.any fun activity => activity.phase = .waiting &&
    activity.revision = state.blockedRevision.getD 0 && noAttention activity

def currentCapacityFailure (view : Option TurnState) : Bool :=
  view.any fun activity => activity.currentTurn.isNone &&
    activity.lastTurn.any fun turn => turn.outcome = .failed &&
      turn.providerFailureKind = some "provider_capacity"

def blockedAccountIdentityAvailable : Bool :=
  state.blockedAccount.any (· ≠ "") && state.blockedAccountRevision.any (0 < ·)

def recordCapacityBinding : DurableAutoResume :=
  match facts.binding with
  | .unbound => { state with
      blockedBindingState := some .unbound, blockedAccount := none, blockedAccountRevision := none }
  | .bound account revision => { state with
      blockedBindingState := some .bound
      blockedAccount := some account
      blockedAccountRevision := some revision }
  | .blocked => { state with
      blockedBindingState := some .blocked, blockedAccount := none, blockedAccountRevision := none }

def capacityBindingMatches : Bool :=
  match state.blockedBindingState, state.blockedAccount, state.blockedAccountRevision,
    facts.binding with
  | some .unbound, none, none, .unbound => true
  | some .bound, some expectedAccount, some expectedRevision, .bound account revision =>
    account = expectedAccount && revision = expectedRevision
  | some .blocked, none, none, .blocked => true
  | _, _, _, _ => false

def currentAccountChanged : Bool :=
  match state.blockedAccount, state.blockedAccountRevision, facts.binding with
  | some blockedAccount, some blockedRevision, .bound account revision =>
    account ≠ blockedAccount && revision ≠ blockedRevision
  | _, _, _ => false

/-! ## What an entry point does -/

inductive Failure
  | error (error : CliError)
  | indexOutOfBounds

structure Submission where
  turn : String
  revision : Nat
  cause : Option RecoveryCause
  activity : TurnState
  deriving DecidableEq

/-- What happened, for the log. -/
inductive Entry
  | enabled
  | disabled
  /-- `rearm_usage_exhaustion_for_runtime`. -/
  | rearmed (turn : String) (revision : Nat)
  /-- The chain of the recovery before was preserved, or its counters were cleared. -/
  | armed (cause : RecoveryCause) (turn : String) (revision : Nat) (preserved : Bool)
  /-- `reset_enabled_recovery`. -/
  | reset
  | cancelled
  | failed
  | checkFailed
  | scheduled
  | accountQueued (account : String)
  | submitted (submission : Submission)
  deriving DecidableEq

/-- What is done to the file, with the entries of the log, latest first. -/
inductive Move
  | keeps
  | writes (state : DurableAutoResume) (entries : List Entry)
  | claims (state : DurableAutoResume)

abbrev Outcome := Except Failure Move

/-- `jiff::Timestamp` holds these seconds. -/
def timestampRange (epoch : Int) : Bool := -377705023201 ≤ epoch && epoch ≤ 253402207200

def epochString (epoch : Int) : Except Failure Int :=
  if timestampRange epoch then .ok epoch
  else .error (.error (.dataErr "auto-resume-time-invalid"
    "auto-resume timestamp is outside the supported range"))

/-- An index into a table of delays. -/
def delayAt (delays : List Int) (index : Nat) : Except Failure Int :=
  orErr delays[index]? .indexOutOfBounds

/-- `saturating_add(1)` of a 32-bit counter. -/
def u32Succ (n : Nat) : Nat := if n < 2 ^ 32 - 1 then n + 1 else n

/-- A recovery that ends for good. -/
def failTerminally : Move :=
  .writes { state with
    enabled := false
    state := .terminalFailure
    updatedAt := now
    failureReason := some reason } [.failed]

/-- The recovery is called off. -/
def cancelWith (reason : Option String) : Move :=
  .writes { state with
    enabled := false
    state := .cancelled
    updatedAt := now
    scheduledAt := none
    nextCheckAt := none
    failureReason := reason } [.cancelled]

def projectionUnavailable : Bool :=
  state.state = .terminalFailure && state.failureReason = some "state_unavailable"

@[grind] def legacyUsageWindowTerminal : Bool :=
  !state.enabled && state.state = .terminalFailure &&
    state.failureReason = some "usage_window_not_exhausted" && state.blockedTurnId.isSome &&
    state.blockedRevision.isSome

/-- A claim that a tick looks at. -/
@[grind] def RecoveryState.claimable : RecoveryState → Bool
  | .armed | .scheduled | .transientFailure | .switchingAccount => true
  | .disabled | .enabled | .checking | .resumed | .cancelled | .terminalFailure => false

def recordRetry : Outcome := do
  let state := { state with
    attempt := u32Succ state.attempt
    updatedAt := now
    failureReason := some reason
    scheduledAt := none }
  if maxTransientAttempts ≤ state.attempt then
    return .writes { state with enabled := false, state := .terminalFailure, nextCheckAt := none }
      [.failed, .checkFailed]
  let delay ← delayAt retryDelaysSeconds (state.attempt - 1)
  let next ← epochString (i64Add now delay)
  return .writes { state with state := .transientFailure, nextCheckAt := some next } [.checkFailed]

def recordCapacitySchedulerRetry : Outcome := do
  let state := { state with
    fallbackSchedules := u32Succ state.fallbackSchedules
    updatedAt := now
    failureReason := some reason
    scheduledAt := none }
  if maxTransientAttempts ≤ state.fallbackSchedules then
    return .writes { state with enabled := false, state := .terminalFailure, nextCheckAt := none }
      [.failed]
  let delay ← delayAt retryDelaysSeconds (state.fallbackSchedules - 1)
  let next ← epochString (i64Add now delay)
  return .writes { state with state := .transientFailure, nextCheckAt := some next } []

end NilsCli.AutoResume
