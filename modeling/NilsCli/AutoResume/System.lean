import NilsCli.AutoResume.Tick
import NilsCli.Lib.Transition

/-!
# The recovery of one session

The durable file of one session, its activity, and the submission that a scheduler has under way
(`recoverySystem`).
-/

namespace NilsCli.AutoResume

open Lib
open Coordination (CliError)
open Activity (Provider TurnState)

structure Flight where
  claim : DurableAutoResume
  submitted : Bool
  deriving DecidableEq

structure World where
  file : Option DurableAutoResume
  activity : TurnState
  flight : Option Flight
  /-- What happened, latest first. -/
  log : List Entry
  deriving DecidableEq

inductive Label
  /-- An activity event is applied. -/
  | event (activity : TurnState)
  | setEnabled (facts : Facts) (enabled : Bool) (policy : RecoveryPolicy) (now : Int)
  | serveDefault (facts : Facts) (policy : RecoveryPolicy) (now : Int)
  | rearm (facts : Facts) (expectedLaunchId turn : String) (revision : Nat) (now : Int)
  | cancel (now : Int)
  | manualInput (facts : Facts) (now : Int)
  | accountSwitch (facts : Facts) (now : Int)
  | failClosed (facts : Facts) (expectedLaunchId : String) (now : Int)
  | armUsage (facts : Facts) (turn : String) (revision : Nat) (now : Int)
  | armCapacity (facts : Facts) (expectedLaunchId : String) (expectedBinding : BindingSnapshot)
      (turn : String) (revision : Nat) (now : Int)
  | completeCapacity (completedRevision : Nat) (now : Int)
  | schedulerError (facts : Facts) (expectedLaunchId : Option String) (now : Int)
      (reason : SchedulerReason)
  | wake (facts : Facts) (expectedLaunchId : Option String) (now : Int)
  | tick (facts : Facts) (tick : Tick)
  /-- The continuation of the claim is submitted. -/
  | submit
  | publish (accepted : Bool) (now : Int)
  /-- The scheduler of the submission dies, or cannot publish. -/
  | abandon

variable (agent : Provider) (digestByte : String → Nat)

/-- What a label does to the file. -/
def moveOf (world : World) : Label → Outcome
  | .setEnabled facts enabled policy now => setEnabled agent facts world.file enabled policy now
  | .serveDefault facts policy now => applyServeDefault agent facts world.file policy now
  | .rearm facts launchId turn revision now =>
    rearmUsageExhaustion agent facts world.file launchId turn revision now
  | .cancel now => cancel world.file now
  | .manualInput facts now => .ok (cancelForManualInput facts world.file world.activity now)
  | .accountSwitch facts now => .ok (cancelForAccountSwitch facts world.file world.activity now)
  | .failClosed facts launchId now => .ok (failClosedProjection facts world.file launchId now)
  | .armUsage facts turn revision now =>
    armUsageExhaustion agent facts world.file turn revision now
  | .armCapacity facts launchId binding turn revision now =>
    armProviderCapacity agent facts world.file launchId binding world.activity turn revision now
  | .completeCapacity revision now =>
    .ok (completeProviderCapacityRecovery world.file revision now)
  | .schedulerError facts launchId now reason =>
    recordSchedulerError facts world.file launchId now reason
  | .wake facts launchId now => wakeScheduledIfUsageOpen facts world.file launchId now
  | .tick facts tick =>
    tickInner agent digestByte facts tick world.file world.flight.isSome world.activity
  | .publish accepted now =>
    match world.flight with
    | some flight => .ok (publish world.file flight.claim accepted now)
    | none => .ok .keeps
  | .event _ | .submit | .abandon => .ok .keeps

/-- The session-record lock is held by a scheduler that has claimed and not yet submitted. -/
def World.locked (world : World) : Bool := world.flight.any (!·.submitted)

/-- The world after a move of the file. -/
def World.after (world : World) : Outcome → World
  | .ok (.writes state entries) =>
    { world with file := some state, log := entries ++ world.log }
  | .ok (.claims state) => { world with file := some state, flight := some ⟨state, false⟩ }
  | .ok .keeps | .error _ => world

/-- What a claim submits. -/
def submissionOf (claim : DurableAutoResume) (activity : TurnState) : Submission where
  turn := claim.blockedTurnId.getD ""
  revision := claim.blockedRevision.getD 0
  cause := claim.recoveryCause
  activity := activity

/-- The world after a step, where it can be taken. -/
def World.next (world : World) (label : Label) : Option World :=
  match label with
  | .event activity =>
    if !world.locked ∧ world.activity.revision < activity.revision then
      some { world with activity }
    else none
  | .submit =>
    match world.flight with
    | some ⟨claim, false⟩ => some { world with
        flight := some ⟨claim, true⟩
        log := .submitted (submissionOf claim world.activity) :: world.log }
    | _ => none
  | .publish accepted now =>
    match world.flight with
    | some ⟨_, true⟩ => some
        { world.after (moveOf agent digestByte world (.publish accepted now)) with flight := none }
    | _ => none
  | .abandon => if world.flight.isSome then some { world with flight := none } else none
  | label => if world.locked then none else some (world.after (moveOf agent digestByte world label))

/-- The file of an older release whose recovery ended for want of an exhausted window. -/
structure Legacy (state : DurableAutoResume) (turn : String) (revision : Nat) : Prop where
  terminal : legacyUsageWindowTerminal state = true
  turn : state.blockedTurnId = some turn
  revision : state.blockedRevision = some revision
  /-- That release knew one cause. -/
  cause : state.recoveryCause = none

def World.Starts (world : World) : Prop :=
  world.flight = none ∧
    (world.file = none ∧ world.log = [] ∨
      ∃ state turn revision, Legacy state turn revision ∧ world.file = some state ∧
        world.log = [.armed .usageExhaustion turn revision false])

/-- The recovery of one session of an agent. -/
def recoverySystem : Lts where
  State := World
  Label := Label
  init := World.Starts
  step label world world' := world.next agent digestByte label = some world'

end NilsCli.AutoResume
