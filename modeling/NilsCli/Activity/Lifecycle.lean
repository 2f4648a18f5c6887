import NilsCli.Activity.Ingest
import NilsCli.Lib.Guard

/-!
# The life of an activity document

What besides events changes the document (`activity.rs`): a runtime generation is activated, an
operator reconciles a turn that stopped, the session is bound to another conversation, and a runtime
is marked unhealthy.
-/

namespace NilsCli.Activity

open Lib
open Coordination (CliError)

/-! ## Activation -/

def runtimeSource : TurnSource := ⟨.runtime, none, .authoritative⟩

def startingState (at_ : Int) (revision : Nat) (lastTurn : Option LastTurn) : TurnState where
  phase := .starting
  phaseChangedAt := at_
  revision := revision
  source := runtimeSource
  semanticEvent := none
  diagnostic := none
  shadowObservation := none
  currentTurn := none
  lastTurn := lastTurn

structure Runtime where
  id : String
  generation : Nat
  startedAt : Int
  providerSessionId : Option String

/-- `activity_document_for_runtime`. -/
def documentForRuntime (runtime : Runtime) (state : TurnState) : Document where
  runtimeId := runtime.id
  runtimeGeneration := runtime.generation
  state := state
  pendingAttention := []
  overflowAttention := none
  seenEventCount := 0
  lastSemanticEvent := none
  lastSemanticEventAt := none
  lastProviderEventKind := none
  lastProviderEventProvider := none
  lastProviderEventAt := none
  lastProviderEventTurnId := none
  providerSessionId := runtime.providerSessionId
  lastEventAt := none
  pendingJournal := none
  pendingCompletion := none
  runtimeUnhealthyReason := none

/-- The last turn that a new generation starts with: an open turn is interrupted. -/
def inheritedTurn (existing : Option Document) (at_ : Int) : Option LastTurn :=
  match existing.bind (·.state.currentTurn) with
  | some current => some
      { providerTurnId := current.providerTurnId
        startedAt := some current.startedAt
        completedAt := at_
        outcome := .interrupted
        providerFailureKind := none }
  | none => existing.bind (·.state.lastTurn)

/-- The document of a new generation. -/
def newDocument (existing : Option Document) (runtime : Runtime) : Document :=
  documentForRuntime runtime (startingState runtime.startedAt
    (existing.elim 1 (u64Succ ·.state.revision)) (inheritedTurn existing runtime.startedAt))

def Document.isOf (document : Document) (runtime : Runtime) : Bool :=
  document.runtimeId = runtime.id && document.runtimeGeneration = runtime.generation

variable (codec : Codec)

variable (lines : List JournalLine) (document : Document)

def activateRuntime (runtime : Runtime) : Durable Store CliError Unit := do
  repairPendingTransaction codec
  let store ← .load
  if store.document.isOf runtime then
    .write fun store => { store with document := { store.document with
      providerSessionId := store.document.providerSessionId.or runtime.providerSessionId } }
  else
    .write fun store =>
      { store with tableZero := some (newDocument (some store.document) runtime).freshTable }
    .write fun store => { store with
      document := newDocument (some store.document) runtime, counted := [], applied := [] }

/-! ## Reconciliation by an operator -/

structure ReconcileInput where
  /-- There is no marker that the runtime is unhealthy. -/
  healthy : Bool
  runtimeLaunchId : String
  runtimeGeneration : Nat
  activityRevision : Nat
  provider : Provider
  providerTurnId : String
  reconciledAt : Int

def reconcileNotAdmissible : CliError :=
  .dataErr "operator-provider-turn-reconcile-not-admissible"
    "provider turn reconciliation requires the exact inactive stop-observed state with no pending attention or newer provider evidence"

def journalTailMatches (input : ReconcileInput) : Bool :=
  ((retainedEntries codec.lineBytes lines).bind (·.getLast?)).any fun last =>
    some last.receivedAt = document.lastProviderEventAt &&
    document.lastEventAt = some last.receivedAt &&
    document.lastSemanticEventAt = some last.receivedAt &&
    last.event.runtimeId = document.runtimeId && last.event.provider = input.provider &&
    last.event.providerTurnId = some input.providerTurnId && last.event.kind = .stopObserved &&
    last.event.sourceKind = .providerHook &&
    document.providerSessionId = last.event.providerSessionId &&
    document.lastSemanticEvent = some (semanticEventKey last.event)

/-- A Stop of the open turn is the last that its provider said, and nothing is pending. -/
def stoppedExactly (current : CurrentTurn) (input : ReconcileInput) : Bool :=
  document.state.phase = .working &&
    document.state.semanticEvent.any (fun semantic => semantic.kind = .event .stopObserved &&
      document.lastProviderEventAt = some semantic.observedAt) &&
    document.state.diagnostic.any (·.reason = "completion_evidence_pending") &&
    document.lastProviderEventKind = some .stopObserved &&
    document.lastProviderEventProvider = some input.provider &&
    (document.lastProviderEventTurnId = some input.providerTurnId ||
      document.lastProviderEventTurnId.isNone && journalTailMatches codec lines document input) &&
    document.lastSemanticEventAt = document.lastProviderEventAt && document.quiet &&
    current.attention.isNone

def reconciled (document : Document) (current : CurrentTurn) (input : ReconcileInput) : Document :=
  { document with
    state := { document.state with
      phase := .waiting
      phaseChangedAt := input.reconciledAt
      revision := u64Succ document.state.revision
      source := runtimeSource
      semanticEvent := some ⟨.operatorReconciled, input.reconciledAt⟩
      diagnostic := none
      shadowObservation := none
      currentTurn := none
      lastTurn := some
        { providerTurnId := some input.providerTurnId
          startedAt := some current.startedAt
          completedAt := input.reconciledAt
          outcome := .operatorReconciled
          providerFailureKind := none } }
    lastEventAt := some input.reconciledAt }

/-- `operator_reconcile_provider_turn_locked`, for a request that has no receipt yet. -/
def operatorReconcile (input : ReconcileInput) : Except CliError Document := do
  ensure input.healthy (.dataErr "activity-runtime-unhealthy"
    "provider turn reconciliation requires healthy activity evidence")
  ensure (document.runtimeId = input.runtimeLaunchId ∧
    document.runtimeGeneration = input.runtimeGeneration ∧ document.runtimeUnhealthyReason.isNone)
    (.dataErr "session-incarnation-conflict"
      "provider turn reconciliation selectors do not match the healthy activity runtime")
  ensure document.pendingJournal.isNone (.dataErr "operator-provider-turn-reconcile-not-admissible"
    "provider turn reconciliation refuses queued provider journal evidence")
  ensure (document.state.revision = input.activityRevision) (.dataErr "activity-revision-conflict"
    "provider turn reconciliation activity revision is stale")
  let current ← orErr document.state.currentTurn
    (.dataErr "operator-provider-turn-reconcile-not-admissible"
      "provider turn reconciliation requires an exact open provider turn")
  ensure (current.providerTurnId = some input.providerTurnId) (.dataErr "provider-turn-id-mismatch"
    "provider turn reconciliation selector does not match the open provider turn")
  ensure (stoppedExactly codec lines document current input) reconcileNotAdmissible
  return reconciled document current input

/-- `with_conversation_rebind`: the document for another conversation of the same runtime. -/
def conversationRebind (existing : Document) (runtime : Runtime) (agent : Provider) (at_ : Int) :
    Document :=
  { documentForRuntime runtime { startingState at_ (u64Succ existing.state.revision) none with
      phase := .waiting
      source := ⟨.providerHook, some agent, .authoritative⟩ } with
    seenEventCount := existing.seenEventCount }

/-! ## Unhealthy runtimes -/

def runtimeDiagnostic (reason : String) : ActivityDiagnosticView where
  reason :=
    if containsText reason "attention_authority" then "attention_authority_mismatch"
    else if containsText reason "projection" then "provider_projection_unavailable"
    else "runtime_activity_unhealthy"
  completionCandidateReason := none

def degradedState (state : TurnState) (at_ : Int) : TurnState :=
  { state with
    currentTurn := state.currentTurn.map fun current => { current with attention := none }
    phaseChangedAt := if state.phase ≠ .unknown then at_ else state.phaseChangedAt
    phase := .unknown
    revision := u64Succ state.revision
    source := runtimeSource
    diagnostic := some ⟨"runtime_activity_unhealthy", none⟩
    shadowObservation := none }

def unknownState (at_ : Int) : TurnState :=
  { startingState at_ 0 none with phase := .unknown }

def markerState (runtime : Runtime) (at_ : Int) : TurnState :=
  if document.isOf runtime then
    if document.runtimeUnhealthyReason.isSome ∧ document.state.phase = .unknown then document.state
    else degradedState document.state at_
  else unknownState at_

/-- The document of a runtime that is unhealthy. -/
def unhealthyDocument (reason : String) (marker : TurnState) (at_ : Int) : Document :=
  { document with
    runtimeUnhealthyReason := some reason
    pendingAttention := []
    overflowAttention := none
    state := { (if document.state.revision < marker.revision then marker
        else degradedState document.state at_) with
      diagnostic := some (runtimeDiagnostic reason) } }

def markRuntimeUnhealthy (runtime : Runtime) (reason : String) (marker : TurnState) (at_ : Int) :
    Durable Store CliError Unit := do
  repairPendingTransaction codec
  let store ← .load
  if !store.document.isOf runtime then .lift (.error (.dataErr "runtime-id-mismatch"
    "activity snapshot does not match the active runtime generation"))
  else if store.document.runtimeUnhealthyReason.isSome then return
  else .write fun store =>
    { store with document := unhealthyDocument store.document reason marker at_ }

end NilsCli.Activity
