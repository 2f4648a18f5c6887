import NilsCli.Lib.Durable
import NilsCli.Lib.Probing
import NilsCli.Lib.Transition
import NilsCli.Activity.Journal

/-!
# Ingesting turn events

`ingest_event`: an event is checked, looked up in the replay tables, reduced into the document and
remembered.
-/

namespace NilsCli.Activity

open Lib
open Coordination (CliError)

def maxDedupeEvents : Nat := 4096

def replaySlotCount : Nat := maxDedupeEvents * 2

structure DedupeKey where
  runtimeId : String
  eventId : String
  deriving DecidableEq

def TurnEvent.dedupeKey (event : TurnEvent) : DedupeKey := ⟨event.runtimeId, event.eventId⟩

structure Codec where
  slotStart : DedupeKey → Nat
  lineBytes : JournalEntry → Nat

inductive ReplayFile
  | empty
  | missized
  | table (runtimeId : String) (runtimeGeneration : Nat) (slots : Slots DedupeKey)

/-- The files of one session. -/
structure Store where
  document : Document
  journal : List JournalLine
  tableZero : Option ReplayFile
  tableOne : Option ReplayFile
  counted : List TurnEvent
  applied : List TurnEvent

/-- `replay_table_path`. -/
def Store.table (store : Store) (table : Nat) : Option ReplayFile :=
  if table = 0 then store.tableZero else store.tableOne

def Store.setTable (store : Store) (table : Nat) (file : ReplayFile) : Store :=
  if table = 0 then { store with tableZero := some file } else { store with tableOne := some file }

def Document.freshTable (document : Document) : ReplayFile :=
  .table document.runtimeId document.runtimeGeneration fun _ => none

/-! ## Errors -/

def replayMissing : CliError := .dataErr "activity-replay-missing"
  "activity replay index is missing for a nonempty durable activity snapshot"

def replaySizeInvalid : CliError := .dataErr "activity-replay-size-invalid"
  "activity replay index has an unexpected size"

def replayRuntimeMismatch : CliError := .dataErr "activity-replay-runtime-mismatch"
  "activity replay index does not match the durable runtime generation"

def replayIndexFull : CliError := .dataErr "activity-replay-index-full"
  "activity replay index is full for this runtime generation"

def runtimeIdMismatch : CliError := .dataErr "runtime-id-mismatch"
  "activity snapshot does not match the active runtime generation"

def runtimeUnhealthy : CliError := .dataErr "activity-runtime-unhealthy"
  "activity evidence is unavailable until the session starts a new runtime generation"

def providerTurnIdMismatch : CliError := .dataErr "provider-turn-id-mismatch"
  "attention request does not belong to the active provider turn"

def providerSessionIdMismatch : CliError := .dataErr "provider-session-id-mismatch"
  "activity event changed provider session identity within one runtime"

def providerSessionIdMissing : CliError := .dataErr "provider-session-id-missing"
  "activity event omitted the provider session identity already bound to this runtime"

/-! ## Replay tables -/

def replayTable (eventIndex : Nat) : Nat := eventIndex / maxDedupeEvents % 2

/-- `open_replay_index` of an existing file. -/
def openReplayIndex (document : Document) (file : Option ReplayFile) :
    Except CliError (Slots DedupeKey) :=
  match file with
  | none => .error replayMissing
  | some .empty => .error replaySizeInvalid
  | some .missized => .error replaySizeInvalid
  | some (.table runtimeId runtimeGeneration slots) =>
    if runtimeId = document.runtimeId ∧ runtimeGeneration = document.runtimeGeneration then
      .ok slots
    else .error replayRuntimeMismatch

def replayTableOneSelfHeals (error : CliError) : Bool :=
  error = replayMissing || error = replayRuntimeMismatch || error = replaySizeInvalid

def resetReplayTable (table : Nat) : Durable Store CliError Unit :=
  .write fun store => store.setTable table store.document.freshTable

variable (codec : Codec)

def slotsContain (slots : Slots DedupeKey) (key : DedupeKey) : Bool :=
  probe replaySlotCount (codec.slotStart key) slots key = .found

/-- Table 0 as `replay_contains` opens it: it is created while nothing is counted. -/
def openTableZero : Durable Store CliError (Slots DedupeKey) := do
  let store ← .load
  let absent : Bool := match store.tableZero with
    | none | some .empty => true
    | some .missized | some (.table ..) => false
  if absent ∧ store.document.seenEventCount = 0 then
    resetReplayTable 0
    return fun _ => none
  else .lift (openReplayIndex store.document store.tableZero)

def replayContains (key : DedupeKey) : Durable Store CliError Bool := do
  let zero ← openTableZero
  if slotsContain codec zero key then return true
  let store ← .load
  if store.document.seenEventCount ≤ maxDedupeEvents then return false
  match openReplayIndex store.document store.tableOne with
  | .ok slots => return slotsContain codec slots key
  | .error error => if replayTableOneSelfHeals error then return false else .lift (.error error)

/-- The slots that `replay_insert` inserts into. -/
def openForInsert (table : Nat) : Durable Store CliError (Slots DedupeKey) := do
  let store ← .load
  match openReplayIndex store.document (store.table table) with
  | .ok slots => return slots
  | .error error =>
    if table = 1 ∧ replayTableOneSelfHeals error then
      resetReplayTable table
      return fun _ => none
    else .lift (.error error)

/-- The slots of a table are replaced. -/
def writeSlots (table : Nat) (slots : Slots DedupeKey) : Durable Store CliError Unit :=
  .write fun store => store.setTable table
    (.table store.document.runtimeId store.document.runtimeGeneration slots)

/-- `replay_insert` behind the reset of a new window: a table that is full is started over. -/
def insertOpened (table : Nat) (key : DedupeKey) : Durable Store CliError Unit := do
  let slots ← openForInsert table
  match insertKey replaySlotCount (codec.slotStart key) slots key with
  | some slots => writeSlots table slots
  | none =>
    resetReplayTable table
    match insertKey replaySlotCount (codec.slotStart key) (fun _ => none) key with
    | some slots => writeSlots table slots
    | none => .lift (.error replayIndexFull)

def replayInsert (eventIndex : Nat) (key : DedupeKey) : Durable Store CliError Unit := do
  let table := replayTable eventIndex
  if eventIndex > 0 ∧ eventIndex % maxDedupeEvents = 0 then resetReplayTable table
  insertOpened codec table key

/-! ## One event -/

/-- `event_uses_exact_replay_horizon`. -/
def usesExactReplayHorizon (event : TurnEvent) : Bool :=
  !(event.provider = .claude && event.kind = .progress && event.sourceKind = .providerHook &&
    event.providerTurnId.isNone)

/-- The journal write. -/
def appendJournal (entry : JournalEntry) : Durable Store CliError Unit :=
  .write fun store =>
    { store with journal := appendJournalEntry codec.lineBytes store.journal entry }

/-- Nothing is pending any more. -/
def Store.withoutPending (store : Store) : Store :=
  { store with document := { store.document with pendingJournal := none } }

def closeTransaction : Durable Store CliError Unit := .write Store.withoutPending

def finishTransaction (entry : JournalEntry) : Durable Store CliError Unit := do
  let store ← .load
  if usesExactReplayHorizon entry.event then
    replayInsert codec (store.document.seenEventCount - 1) entry.event.dedupeKey
  appendJournal codec entry
  closeTransaction

def repairPendingTransaction : Durable Store CliError Unit := do
  let store ← .load
  match store.document.pendingJournal with
  | none => return
  | some entry => finishTransaction codec entry

/-- `late_claude_attention_for_closed_turn`. -/
def lateClaudeAttention (document : Document) (event : TurnEvent) : Bool :=
  event.providerTurnId.any fun eventTurn =>
    event.kind = .attentionRequested && event.provider = .claude &&
      document.state.lastTurnId = some eventTurn &&
      document.state.currentTurnId.any (· ≠ eventTurn)

structure Call where
  event : TurnEvent
  /-- The checks of the event, the session record and the health marker. -/
  admitted : Except CliError Unit
  runtimeGeneration : Nat
  systemEphemeralHook : Bool
  receivedAt : Int
  /-- What `arm_auto_resume_from_event` returns, if it is called. -/
  armed : Except CliError Unit

variable (call : Call)

inductive Admission
  | refused (error : CliError)
  | metadata
  | proceeds

/-- The checks of `ingest_event_with_lock` between the repair and the replay lookup. -/
def admission (document : Document) : Admission :=
  let event := call.event
  if document.runtimeUnhealthyReason.isSome then .refused runtimeUnhealthy
  else if call.systemEphemeralHook then .metadata
  else if event.kind = .attentionRequested ∧ event.provider ≠ .claude ∧
      (document.state.currentTurnId.any fun expected =>
        event.providerTurnId.any (expected ≠ ·)) then .refused providerTurnIdMismatch
  else if lateClaudeAttention document event then .metadata
  else if document.providerSessionId.any fun bound =>
      event.providerSessionId.any (bound ≠ ·) then .refused providerSessionIdMismatch
  else if document.providerSessionId.isSome ∧ event.providerSessionId.isNone then
    .refused providerSessionIdMissing
  else .proceeds

def acceptEvent (journal : List JournalLine) (document : Document) (call : Call) :
    Document × Bool :=
  let event := call.event
  let document := settleClaudeCompletion document call.receivedAt
  if allowsReconciliation codec.lineBytes journal document event then
    let document := restoreProgressTurn codec.lineBytes journal document event
    let (document, applied) := reduce document event call.receivedAt
    if applied then
      let document := { document with
        lastEventAt := some call.receivedAt
        providerSessionId := document.providerSessionId.or event.providerSessionId }
      if event.sourceKind = .providerHook then
        ({ document with
          state := { document.state with
            semanticEvent := some ⟨.event event.kind, call.receivedAt⟩
            diagnostic := if event.kind = .stopObserved ∧ document.state.currentTurn.isSome then
                some ⟨"completion_evidence_pending", event.completionCandidateReason⟩
              else none
            shadowObservation := none }
          lastSemanticEvent := some (semanticEventKey event)
          lastSemanticEventAt := some call.receivedAt
          lastProviderEventKind := some event.kind
          lastProviderEventProvider := some event.provider
          lastProviderEventAt := some call.receivedAt
          lastProviderEventTurnId := event.providerTurnId }, true)
      else (document, true)
    else (document, false)
  else (document, false)

def Store.opened (store : Store) (call : Call) (accepted : Document × Bool) : Store :=
  let exact := usesExactReplayHorizon call.event
  { store with
    document := { accepted.1 with
      seenEventCount := if exact then accepted.1.seenEventCount + 1 else accepted.1.seenEventCount
      pendingJournal := some ⟨call.receivedAt, call.event, some accepted.2⟩ }
    counted := if exact then store.counted ++ [call.event] else store.counted
    applied := if exact ∧ accepted.2 then store.applied ++ [call.event] else store.applied }

/-- The first write of the document. -/
def openTransaction (accepted : Document × Bool) : Durable Store CliError Unit :=
  .write fun store => store.opened call accepted

/-- An event that is reported as a duplicate may retry the recovery of its completion. -/
def reportDuplicate (exact : Bool) : Durable Store CliError ActivityResult := do
  let store ← .load
  if retryAdmitted codec.lineBytes store.journal store.document call.event exact then
    .lift call.armed
  return ⟨store.document.state, true⟩

def commitEvent (accepted : Document × Bool) : Durable Store CliError ActivityResult := do
  openTransaction call accepted
  finishTransaction codec ⟨call.receivedAt, call.event, some accepted.2⟩
  let store ← .load
  if accepted.2 then .lift call.armed
  return ⟨store.document.state, false⟩

/-- An event that is new. -/
def ingestNew : Durable Store CliError ActivityResult := do
  let store ← .load
  let count := store.document.seenEventCount
  let accepted := acceptEvent codec store.journal store.document call
  if usesExactReplayHorizon call.event ∧ count > 0 ∧ count % maxDedupeEvents = 0 then
    resetReplayTable (replayTable count)
  commitEvent codec call accepted

def seenExactly (event : TurnEvent) : Durable Store CliError Bool :=
  if usesExactReplayHorizon event then replayContains codec event.dedupeKey else pure false

def ingestAdmitted : Durable Store CliError ActivityResult := do
  let store ← .load
  let seen ← seenExactly codec call.event
  if seen then reportDuplicate codec call true
  else if semanticEventIsDuplicate store.document call.event (semanticEventKey call.event)
      call.receivedAt then reportDuplicate codec call false
  else ingestNew codec call

/-- `ingest_event_with_lock`. -/
def ingestEvent : Durable Store CliError ActivityResult := do
  Durable.lift call.admitted
  let store ← .load
  if store.document.runtimeId ≠ call.event.runtimeId ∨
      store.document.runtimeGeneration ≠ call.runtimeGeneration then
    .lift (.error runtimeIdMismatch)
  else
    repairPendingTransaction codec
    let store ← .load
    match admission call store.document with
    | .refused error => .lift (.error error)
    | .metadata => return ⟨store.document.state, true⟩
    | .proceeds => ingestAdmitted codec call

end NilsCli.Activity
