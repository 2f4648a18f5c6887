import NilsCli.Coordination.Types

/-!
# The activity of a session

The data of `crates/agent-session/src/activity.rs`: what a session knows about the turns of its
provider.
-/

namespace NilsCli.Activity

open Lib
open Coordination (CliError)

/-! ## Turn events -/

/-- The providers whose events are accepted. -/
inductive Provider
  | codex
  | claude
  | dsh
  deriving DecidableEq

inductive Confidence
  | authoritative
  | observed
  | inferred
  deriving DecidableEq

inductive SourceKind
  | providerHook
  | consoleObservation
  | terminalHeuristic
  | runtime
  deriving DecidableEq

inductive TurnEventKind
  | turnStarted
  | attentionRequested
  | attentionCleared
  | progress
  | stopObserved
  | turnCompleted
  | turnFailed
  deriving DecidableEq

/-- `TurnCompleted | TurnFailed`. -/
def TurnEventKind.terminal : TurnEventKind → Bool
  | .turnCompleted | .turnFailed => true
  | .turnStarted | .attentionRequested | .attentionCleared | .progress | .stopObserved => false

structure TurnEvent where
  eventId : String
  runtimeId : String
  provider : Provider
  providerSessionId : Option String
  providerTurnId : Option String
  kind : TurnEventKind
  completionCandidate : Bool
  /-- The name of a `CompletionCandidateReason`. -/
  completionCandidateReason : Option String
  failureReason : Option String
  attentionId : Option String
  attentionKind : Option String
  attentionCorrelationAmbiguous : Bool
  attentionCorrelationExact : Bool
  confidence : Confidence
  sourceKind : SourceKind

/-! ## The document -/

inductive TurnPhase
  | starting
  | working
  | waiting
  | needsInput
  | unresponsive
  | unknown
  deriving DecidableEq

inductive AttentionCertainty
  | exact
  | conservative
  deriving DecidableEq

structure TurnSource where
  kind : SourceKind
  provider : Option Provider
  confidence : Confidence
  deriving DecidableEq

inductive SemanticKind
  | event (kind : TurnEventKind)
  | operatorReconciled
  deriving DecidableEq

structure SemanticEventView where
  kind : SemanticKind
  observedAt : Int
  deriving DecidableEq

structure ActivityDiagnosticView where
  reason : String
  completionCandidateReason : Option String
  deriving DecidableEq

structure ShadowObservationView where
  observerVersion : String
  ruleId : String
  observedAt : Int
  projection : String
  disagrees : Bool
  deriving DecidableEq

structure AttentionView where
  kind : String
  requestedAt : Int
  pendingCount : Nat
  certainty : AttentionCertainty
  deriving DecidableEq

structure CurrentTurn where
  providerTurnId : Option String
  startedAt : Int
  lastProgressAt : Option Int
  attention : Option AttentionView
  deriving DecidableEq

inductive TurnOutcome
  | completed
  | failed
  | interrupted
  | operatorReconciled
  deriving DecidableEq

structure LastTurn where
  providerTurnId : Option String
  startedAt : Option Int
  completedAt : Int
  outcome : TurnOutcome
  providerFailureKind : Option String
  deriving DecidableEq

structure TurnState where
  phase : TurnPhase
  phaseChangedAt : Int
  revision : Nat
  source : TurnSource
  semanticEvent : Option SemanticEventView
  diagnostic : Option ActivityDiagnosticView
  shadowObservation : Option ShadowObservationView
  currentTurn : Option CurrentTurn
  lastTurn : Option LastTurn
  deriving DecidableEq

/-- The provider turn id of the open turn. -/
def TurnState.currentTurnId (state : TurnState) : Option String :=
  state.currentTurn.bind (·.providerTurnId)

/-- The provider turn id of the last closed turn. -/
def TurnState.lastTurnId (state : TurnState) : Option String :=
  state.lastTurn.bind (·.providerTurnId)

structure PendingAttention where
  id : String
  kind : String
  requestedAt : Int
  certainty : AttentionCertainty

structure OverflowAttention where
  kind : String
  requestedAt : Int
  count : Nat
  certainty : AttentionCertainty

structure JournalEntry where
  receivedAt : Int
  event : TurnEvent
  /-- `none` in the journal of an older release. -/
  applied : Option Bool

structure SemanticKey where
  provider : Provider
  providerSessionId : String
  providerTurnId : String
  kind : TurnEventKind
  attentionKind : String
  attentionId : String
  stop : Option (Bool × Option String)
  deriving DecidableEq

structure Document where
  runtimeId : String
  runtimeGeneration : Nat
  state : TurnState
  pendingAttention : List PendingAttention
  overflowAttention : Option OverflowAttention
  seenEventCount : Nat
  lastSemanticEvent : Option SemanticKey
  lastSemanticEventAt : Option Int
  lastProviderEventKind : Option TurnEventKind
  lastProviderEventProvider : Option Provider
  lastProviderEventAt : Option Int
  lastProviderEventTurnId : Option String
  providerSessionId : Option String
  lastEventAt : Option Int
  pendingJournal : Option JournalEntry
  pendingCompletion : Option JournalEntry
  runtimeUnhealthyReason : Option String

structure ActivityResult where
  turnState : TurnState
  duplicate : Bool
  deriving DecidableEq

end NilsCli.Activity
