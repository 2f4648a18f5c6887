import NilsCli.Lib.Eviction
import NilsCli.Activity.Types

/-!
# Reducing turn events

How an accepted event changes the activity document (`activity.rs`, `completion_admission.rs`,
`claude_completion.rs`, `codex_completion.rs`, `completion_receipts.rs`).
-/

namespace NilsCli.Activity

open Lib

variable (document : Document) (event : TurnEvent) (at_ : Int)

def maxPendingAttention : Nat := 64

def maxJournalEvents : Nat := 256

def maxJournalBytes : Nat := 64 * 1024

def nanosPerSecond : Int := 1000000000

/-! ## Turns and attention -/

def openProviderTurn (providerTurnId : Option String) (at_ : Int) : Document :=
  let lastTurn := match document.state.currentTurn with
    | some current => some
        { providerTurnId := current.providerTurnId
          startedAt := some current.startedAt
          completedAt := at_
          outcome := .interrupted
          providerFailureKind := none }
    | none => document.state.lastTurn
  { document with
    pendingAttention := []
    overflowAttention := none
    state := { document.state with
      lastTurn
      currentTurn := some
        { providerTurnId, startedAt := at_, lastProgressAt := none, attention := none } } }

def attentionView (pending : List PendingAttention) (overflow : Option OverflowAttention) :
    Option AttentionView :=
  match pending with
  | first :: _ => some
      { kind := first.kind
        requestedAt := first.requestedAt
        pendingCount := u64Add pending.length (overflow.elim 0 (·.count))
        certainty := if pending.all (·.certainty = .exact) ∧ overflow.all (·.certainty = .exact)
          then .exact else .conservative }
  | [] => overflow.map fun overflow =>
      { kind := overflow.kind
        requestedAt := overflow.requestedAt
        pendingCount := overflow.count
        certainty := overflow.certainty }

def refreshAttention : Document :=
  { document with
    state := { document.state with
      currentTurn := document.state.currentTurn.map fun current =>
        { current with
          attention := attentionView document.pendingAttention document.overflowAttention } } }

def advanceLastProgressAt (current : CurrentTurn) (at_ : Int) : CurrentTurn :=
  if current.lastProgressAt.all (· < at_) then { current with lastProgressAt := some at_ }
  else current

def Document.withCurrentTurn (currentTurn : Option CurrentTurn) : Document :=
  { document with state := { document.state with currentTurn } }

def Document.withPhase (phase : TurnPhase) : Document :=
  { document with state := { document.state with phase } }

/-- Nothing that the session asked for is pending. -/
def Document.quiet : Bool :=
  document.pendingAttention.isEmpty && document.overflowAttention.isNone

def turnOfEvent : CurrentTurn where
  providerTurnId := event.providerTurnId
  startedAt := at_
  lastProgressAt := none
  attention := none

/-! ## Admission of completions -/

def reconcilesClaudeIdle (current : CurrentTurn) : Bool :=
  match current.providerTurnId, event.providerTurnId, document.providerSessionId with
  | some currentId, some completionId, some conversationId =>
    completionId ≠ currentId && event.kind = .turnCompleted && event.provider = .claude &&
    event.runtimeId = document.runtimeId && event.sourceKind = .providerHook &&
    event.confidence = .observed && event.providerSessionId = some conversationId &&
    document.pendingCompletion.any (fun pending =>
      pending.event.kind = .stopObserved && pending.event.completionCandidate &&
      pending.event.runtimeId = document.runtimeId && pending.event.provider = .claude &&
      pending.event.providerSessionId = some conversationId &&
      pending.event.providerTurnId = some currentId &&
      pending.event.sourceKind = .providerHook && pending.event.confidence = .observed) &&
    document.state.phase = .working && document.state.source.kind = .providerHook &&
    document.state.source.provider = some .claude &&
    document.state.source.confidence = .observed &&
    document.lastProviderEventKind = some .stopObserved &&
    document.lastProviderEventProvider = some .claude &&
    document.lastProviderEventTurnId = some currentId &&
    document.lastEventAt = document.lastProviderEventAt &&
    document.lastSemanticEventAt = document.lastProviderEventAt &&
    document.state.semanticEvent.any (fun semantic =>
      semantic.kind = .event .stopObserved && some semantic.observedAt = document.lastProviderEventAt) &&
    document.state.diagnostic.any (·.reason = "completion_evidence_pending") &&
    document.quiet && current.attention.isNone &&
    document.state.lastTurnId ≠ some completionId
  | _, _, _ => false

/-- `completion_admission::applies`. -/
def completionApplies : Bool :=
  let requiresExactOpenTurn := event.provider = .codex && event.kind = .turnCompleted &&
    event.confidence = .authoritative && event.sourceKind = .providerHook &&
    event.providerTurnId.isSome
  if requiresExactOpenTurn then document.state.currentTurnId = event.providerTurnId
  else
    match document.state.currentTurn with
    | some current =>
      event.providerTurnId.isNone || current.providerTurnId.isNone ||
        event.providerTurnId = current.providerTurnId || reconcilesClaudeIdle document event current
    | none =>
      match event.providerTurnId, document.state.lastTurnId with
      | some eventTurnId, some lastTurnId => eventTurnId = lastTurnId
      | _, _ => true

def closeTurn : Document :=
  let current := document.state.currentTurn
  let lastTurn : LastTurn :=
    { providerTurnId := (current.bind (·.providerTurnId)).or event.providerTurnId
      startedAt := current.map (·.startedAt)
      completedAt := at_
      outcome := if event.kind = .turnFailed then .failed else .completed
      providerFailureKind :=
        if event.failureReason = some "provider_capacity" ∨
            event.failureReason = some "authentication" then event.failureReason
        else none }
  { document with
    pendingAttention := []
    overflowAttention := none
    state := { document.state with
      currentTurn := none
      lastTurn := some lastTurn
      phase := .waiting } }

/-! ## The reducer -/

def sourceForEvent : TurnSource :=
  let preservesCompletion := event.provider = .codex && event.kind = .stopObserved &&
    event.sourceKind = .providerHook && event.confidence = .observed &&
    document.state.phase = .waiting && document.state.currentTurn.isNone &&
    document.state.source.kind = .providerHook &&
    document.state.source.provider = some .codex &&
    document.state.source.confidence = .authoritative &&
    event.providerTurnId.any fun id => document.state.lastTurn.any fun last =>
      last.outcome = .completed && last.providerTurnId = some id
  if preservesCompletion then document.state.source
  else ⟨event.sourceKind, some event.provider, event.confidence⟩

def requestAttention : Document :=
  let attentionId := event.attentionId.getD ""
  let kind := event.attentionKind.getD "other"
  let certainty : AttentionCertainty :=
    if event.attentionCorrelationExact then .exact else .conservative
  if document.pendingAttention.any (·.id = attentionId) then document
  else if document.pendingAttention.length < maxPendingAttention then
    { document with
      pendingAttention := document.pendingAttention ++
        [{ id := attentionId, kind, requestedAt := at_, certainty }] }
  else match document.overflowAttention with
    | some overflow =>
      { document with
        overflowAttention := some { overflow with
          count := u64Succ overflow.count
          certainty := if event.attentionCorrelationExact then overflow.certainty
            else .conservative } }
    | none =>
      { document with
        overflowAttention := some { kind, requestedAt := at_, count := 1, certainty } }

/-- `AttentionRequested`: for Claude, a request of another turn supersedes the open one. -/
def reduceAttentionRequested : Document :=
  let openTurnIsStale := event.provider = .claude && event.providerTurnId.isSome &&
    document.state.currentTurnId.any fun current => some current ≠ event.providerTurnId
  let document :=
    if openTurnIsStale then openProviderTurn document event.providerTurnId at_ else document
  let document := match document.state.currentTurn with
    | none => document.withCurrentTurn (some (turnOfEvent event at_))
    | some current =>
      if current.providerTurnId.isNone ∧ event.providerTurnId.isSome then
        document.withCurrentTurn (some { current with providerTurnId := event.providerTurnId })
      else document
  (refreshAttention (requestAttention document event at_)).withPhase .needsInput

/-- `AttentionCleared`. -/
def reduceAttentionCleared : Document :=
  let attentionId := event.attentionId.getD ""
  let remaining := document.pendingAttention.filter (·.id ≠ attentionId)
  let matched := remaining.length < document.pendingAttention.length
  let document := { document with pendingAttention := remaining }
  let document :=
    if matched ∧ event.sourceKind = .providerHook then
      document.withCurrentTurn (document.state.currentTurn.map (advanceLastProgressAt · at_))
    else document
  let document := refreshAttention document
  document.withPhase (if document.quiet then .working else .needsInput)

/-- `Progress`. -/
def reduceProgress : Document :=
  let document := document.withCurrentTurn
    (some (document.state.currentTurn.getD (turnOfEvent event at_)))
  let document :=
    if event.sourceKind = .providerHook then
      document.withCurrentTurn (document.state.currentTurn.map (advanceLastProgressAt · at_))
    else document
  if document.quiet then document.withPhase .working else document

def observeStop : Document :=
  let matchesOpenTurn := event.provider = .claude && event.sourceKind = .providerHook &&
    event.providerTurnId.any fun turn => document.state.currentTurnId = some turn
  let document :=
    if matchesOpenTurn then
      let cleared := refreshAttention { document with
        pendingAttention := document.pendingAttention.filter (·.kind ≠ "approval") }
      if cleared.quiet then cleared.withPhase .working else cleared
    else document
  if event.completionCandidate ∧ document.state.currentTurn.any (fun turn =>
      event.providerTurnId.isNone || turn.providerTurnId.isNone ||
        event.providerTurnId = turn.providerTurnId) then
    { document with pendingCompletion := some ⟨at_, event, some true⟩ }
  else document

/-- The change of an event, by its kind. -/
def reduceKind : Document :=
  match event.kind with
  | .turnStarted => (openProviderTurn document event.providerTurnId at_).withPhase .working
  | .attentionRequested => reduceAttentionRequested document event at_
  | .attentionCleared => reduceAttentionCleared document event at_
  | .progress => reduceProgress document event at_
  | .stopObserved => observeStop document event at_
  | .turnCompleted | .turnFailed => closeTurn document event at_

def reduce : Document × Bool :=
  if event.kind.terminal ∧ !completionApplies document event then (document, false)
  else
    let source := sourceForEvent document event
    let reduced := reduceKind { document with pendingCompletion := none } event at_
    ({ reduced with
      state := { reduced.state with
        revision := u64Succ reduced.state.revision
        source
        phaseChangedAt := if reduced.state.phase ≠ document.state.phase then at_
          else reduced.state.phaseChangedAt } }, true)

end NilsCli.Activity
