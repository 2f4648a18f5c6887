import NilsCli.Activity.Reduce

/-!
# The journal of accepted events

`completion_receipts.rs`: the last accepted events, one per line, bounded in number and bytes.
-/

namespace NilsCli.Activity

open Lib

inductive JournalLine
  | entry (entry : JournalEntry)
  | malformed (bytes : Nat)

/-- The entry of a line. -/
def JournalLine.parsed : JournalLine → Option JournalEntry
  | .entry found => some found
  | .malformed _ => none

variable (lineBytes : JournalEntry → Nat)

variable (lines : List JournalLine) (document : Document) (event : TurnEvent)

/-- The bytes of the lines; `lineBytes` counts those of an entry with its newline. -/
def journalBytes : Nat :=
  (lines.map fun line => match line with
    | .entry entry => lineBytes entry
    | .malformed bytes => bytes).sum

def retainedEntries : Option (List JournalEntry) :=
  if lines = [] ∨ journalBytes lineBytes lines > maxJournalBytes ∨
      lines.length > maxJournalEvents then none
  else lines.mapM (·.parsed)

/-- What the journal keeps: the last entries within both bounds, and at least one. -/
def boundedJournal (entries : List JournalEntry) : List JournalEntry :=
  let recent := entries.drop (entries.length - maxJournalEvents)
  kept (fun entries => (entries.map lineBytes).sum ≤ maxJournalBytes ∨ entries.length ≤ 1) recent

/-- `append_journal_entry`: an event that is in the journal is not appended again. -/
def appendJournalEntry (entry : JournalEntry) : List JournalLine :=
  let entries := lines.filterMap (·.parsed)
  if entries.any fun existing => existing.event.runtimeId = entry.event.runtimeId &&
      existing.event.eventId = entry.event.eventId then lines
  else (boundedJournal lineBytes (entries ++ [entry])).map .entry

/-! ## Evidence for completions -/

def JournalEntry.sameTurn (entry : JournalEntry) (event : TurnEvent) : Bool :=
  entry.applied ≠ some false && entry.event.runtimeId = event.runtimeId &&
    entry.event.provider = event.provider &&
    entry.event.providerSessionId = event.providerSessionId &&
    entry.event.providerTurnId = event.providerTurnId

def allowsReconciliation : Bool :=
  match document.state.currentTurn with
  | none => true
  | some current =>
    if reconcilesClaudeIdle document event current then
      match retainedEntries lineBytes lines with
      | none => false
      | some entries => !entries.any (·.sameTurn event)
    else true

def restorable (current : CurrentTurn) (turnId : String) : Bool :=
  event.provider = .codex && event.kind = .turnCompleted && event.confidence = .authoritative &&
    event.sourceKind = .providerHook && event.runtimeId = document.runtimeId &&
    event.providerSessionId.isSome && event.providerSessionId = document.providerSessionId &&
    current.providerTurnId ≠ some turnId && current.attention.isNone && document.quiet &&
    document.state.phase = .working && document.state.source.kind = .providerHook &&
    document.state.source.provider = some .codex && document.state.lastTurnId ≠ some turnId &&
    (document.lastProviderEventKind = some .progress ||
      document.lastProviderEventKind = some .stopObserved) &&
    document.lastProviderEventProvider = some .codex &&
    document.lastProviderEventTurnId = some turnId

def restoreProgressTurn : Document :=
  match document.state.currentTurn, event.providerTurnId with
  | some current, some turnId =>
    match current.lastProgressAt, retainedEntries lineBytes lines with
    | some progress, some entries =>
      let matching := entries.filter fun entry =>
        entry.sameTurn event && entry.event.sourceKind = .providerHook
      let contradicted := matching.any fun entry =>
        (entry.event.eventId ≠ event.eventId && entry.event.kind.terminal) ||
          (entry.event.kind = .turnStarted && entry.receivedAt < current.startedAt)
      let progressTimes := (matching.filter (·.event.kind = .progress)).map (·.receivedAt)
      let firstProgress :=
        (progressTimes.filter fun at_ => current.startedAt ≤ at_ ∧ at_ ≤ progress).min?
      match firstProgress with
      | some first =>
        if restorable document event current turnId ∧ current.startedAt ≤ progress ∧
            !contradicted ∧ progress ∈ progressTimes then
          let opened := openProviderTurn document (some turnId) first
          opened.withCurrentTurn (opened.state.currentTurn.map fun current =>
            { current with lastProgressAt := some progress })
        else document
      | none => document
    | _, _ => document
  | _, _ => document

def claudeCompletionDeadline (pending : JournalEntry) : Int := pending.receivedAt + nanosPerSecond

def settleClaudeCompletion (at_ : Int) : Document :=
  match document.pendingCompletion with
  | none => document
  | some pending =>
    if at_ < claudeCompletionDeadline pending then document
    else
      let completion := { pending.event with
        kind := .turnCompleted
        completionCandidate := false
        completionCandidateReason := none }
      let settled := (reduce document completion (claudeCompletionDeadline pending)).1
      { settled with state := { settled.state with diagnostic := none } }

/-! ## Semantic duplicates -/

def semanticEventKey : SemanticKey where
  provider := event.provider
  providerSessionId := event.providerSessionId.getD ""
  providerTurnId := event.providerTurnId.getD ""
  kind := event.kind
  attentionKind := event.attentionKind.getD ""
  attentionId :=
    let exactAttention := event.attentionId.any ("local:v1:".toList.isPrefixOf ·.toList) &&
      !event.attentionCorrelationAmbiguous
    if exactAttention ∨ event.kind = .attentionCleared then event.attentionId.getD "" else ""
  stop := if event.kind = .stopObserved then
      some (event.completionCandidate, event.completionCandidateReason)
    else none

def semanticEventIsDuplicate (key : SemanticKey) (receivedAt : Int) : Bool :=
  event.sourceKind = .providerHook &&
    ((event.kind = .turnStarted && event.providerTurnId.isSome &&
        document.state.currentTurnId = event.providerTurnId) ||
      (event.kind.terminal && event.providerTurnId.isSome &&
        document.state.currentTurnId ≠ event.providerTurnId &&
        document.state.lastTurn.any fun turn => turn.providerTurnId = event.providerTurnId &&
          (turn.outcome = .completed || turn.outcome = .failed)) ||
      (document.lastSemanticEvent = some key &&
        (event.kind.terminal || document.lastSemanticEventAt.any fun previous =>
          let elapsed := i64Sub (receivedAt.tdiv nanosPerSecond) (previous.tdiv nanosPerSecond)
          0 ≤ elapsed && elapsed ≤ 1)))

def retryAdmitted (exact : Bool) : Bool :=
  let outcome : TurnOutcome := if event.kind = .turnFailed then .failed else .completed
  event.kind.terminal && document.state.currentTurn.isNone && document.state.phase = .waiting &&
    document.lastProviderEventKind = some event.kind &&
    document.lastProviderEventProvider = some event.provider &&
    document.lastProviderEventTurnId = event.providerTurnId &&
    document.providerSessionId = event.providerSessionId &&
    document.lastSemanticEvent = some (semanticEventKey event) &&
    (document.state.lastTurn.any fun turn => turn.outcome = outcome &&
      (event.providerTurnId.isNone || turn.providerTurnId = event.providerTurnId)) &&
    ((retainedEntries lineBytes lines).any fun entries => entries.any fun entry =>
      entry.sameTurn event && (!exact || entry.event.eventId = event.eventId) &&
        entry.event.kind = event.kind && entry.event.sourceKind = event.sourceKind &&
        entry.event.confidence = event.confidence &&
        entry.event.failureReason = event.failureReason &&
        document.lastProviderEventAt = some entry.receivedAt &&
        document.lastSemanticEventAt = some entry.receivedAt &&
        document.lastEventAt = some entry.receivedAt &&
        document.state.source = ⟨event.sourceKind, some event.provider, event.confidence⟩)

end NilsCli.Activity
