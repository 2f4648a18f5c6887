import NilsCli.Lib.Durable
import NilsCli.Lib.Guard
import NilsCli.Lib.Lines
import NilsCli.Lib.Text

/-!
# The step journal

`journal/mod.rs`: the log of steps, one JSON record a line, the file that counts them, and the
marker of an append that is under way.
-/

namespace NilsCli.StepJournal

open Lib

/-! ## Data -/

structure StepRecord (Content : Type) where
  schemaVersion : String
  sequence : Nat
  id : String
  correlationId : String
  parentId : Option String
  content : Content
  deriving DecidableEq

structure Manifest (Session : Type) where
  schemaVersion : String
  runId : String
  session : Session

def journalSchema : String := "macos-agent.journal.v2"

def stepSchema : String := "macos-agent.journal-step.v2"

def maxJournalBytes : Nat := 32 * 1024 * 1024

def maxJournalSteps : Nat := 512

def newline : UInt8 := 0x0a

/-- The text form of a record. -/
structure StepCodec (Content : Type) where
  render : StepRecord Content → List UInt8
  parse : List UInt8 → Option (StepRecord Content)

structure StepCodec.Lawful {Content : Type} (codec : StepCodec Content) : Prop where
  parse_render : ∀ step, codec.parse (codec.render step) = some step
  one_line : ∀ step, newline ∉ codec.render step
  not_torn : ∀ step tail, tail <+: codec.render step → tail ≠ codec.render step →
    codec.parse tail = none

structure Store (Session Content : Type) where
  manifest : Option (Manifest Session)
  /-- `steps.jsonl`. -/
  log : Option (List UInt8)
  /-- `.sequence`. -/
  sequence : Option Nat
  /-- `.sequence.transaction` is there. -/
  transaction : Bool
  /-- The steps whose `append_step` has returned with success, in order. -/
  appended : List (StepRecord Content)

inductive Fate
  | succeeds
  | dies (kept : Nat)
  | fails (kept : Nat)

abbrev Call (Session Content α : Type) := Durable (Store Session Content) String α

section
variable {Session Content : Type} (codec : StepCodec Content)

variable (runId : String) (sequence : Nat)

/-! ## Reading -/

def nextStep (steps : List (StepRecord Content)) (line : List UInt8) :
    Option (StepRecord Content) :=
  (codec.parse line).filter fun step =>
    step.schemaVersion = stepSchema ∧ step.sequence = steps.length + 1

def scan (steps : List (StepRecord Content)) :
    List (List UInt8) → Option (List (StepRecord Content) × List UInt8)
  | [] => some (steps, [])
  | [last] =>
    if last = [] then some (steps, [])
    else
      match nextStep codec steps last with
      | some step => some (steps ++ [step], [])
      | none => some (steps, last)
  | line :: lines =>
    match nextStep codec steps line with
    | some step => scan (steps ++ [step]) lines
    | none => none

def readStepsRecover : Call Session Content (List (StepRecord Content) × Bool) := do
  let s ← Durable.load
  match s.log with
  | none => pure ([], false)
  | some raw => do
    Durable.lift (ensure (raw.length ≤ maxJournalBytes) "journal step log exceeded its size bound")
    let found ← Durable.lift (orErr (scan codec [] (raw.splitOn newline))
      "journal contains a malformed or out-of-sequence complete record")
    if found.2 = [] then pure (found.1, false)
    else do
      Durable.write fun s => { s with log := some (raw.take (raw.length - found.2.length)) }
      pure (found.1, true)

/-! ## The count and its transaction -/

def readSequence : Call Session Content Nat := do
  let s ← Durable.load
  Durable.lift (orErr s.sequence "journal sequence state is unavailable")

def writeSequence : Call Session Content Unit :=
  Durable.write fun s => { s with sequence := some sequence }

def removeSequenceTransaction : Call Session Content Unit :=
  Durable.write fun s => { s with transaction := false }

def recoverSequenceTransaction : Call Session Content Unit := do
  let s ← Durable.load
  if s.transaction then do
    let found ← readStepsRecover codec
    writeSequence found.1.length
    removeSequenceTransaction
  else pure ()

/-! ## Appending -/

/-- The line of a step. -/
def stepLine (step : StepRecord Content) : List UInt8 := codec.render step ++ [newline]

def appendStep (fate : Fate) (step : StepRecord Content) : Call Session Content Unit := do
  let s ← Durable.load
  Durable.lift (ensure ((s.log.getD []).length < maxJournalBytes)
    "journal step log exceeded its size bound")
  match fate with
  | .succeeds => Durable.write fun s => { s with
      log := some (s.log.getD [] ++ stepLine codec step)
      appended := s.appended ++ [step] }
  | .dies kept | .fails kept => do
    Durable.write fun s => { s with log := some (s.log.getD [] ++ (stepLine codec step).take kept) }
    Durable.lift (.error "failed to append journal step")

def commitStep (fate : Fate) (step : StepRecord Content) : Call Session Content Unit := do
  Durable.write fun s => { s with transaction := true }
  Durable.cleaning (appendStep codec fate step) fun s => match fate with
    | .dies _ => s
    | .succeeds | .fails _ => { s with transaction := false }
  writeSequence step.sequence
  removeSequenceTransaction

/-- `format!("step-{sequence:06}")`. -/
def stepId : String :=
  let digits := toString sequence
  "step-" ++ String.ofList (List.replicate (6 - digits.length) '0') ++ digits

/-! ## Calls -/

def openWithDigest [DecidableEq Session] (session : Session) (freshRunId : String) :
    Call Session Content Unit := do
  let s ← Durable.load
  let manifest := s.manifest.getD ⟨journalSchema, freshRunId, session⟩
  Durable.lift (ensure (manifest.schemaVersion = journalSchema ∧ manifest.session = session)
    "journal manifest does not match this execution session")
  Durable.write fun s => { s with manifest := some manifest }
  let found ← readStepsRecover codec
  writeSequence found.1.length
  removeSequenceTransaction

/-- The record of a step that is made here. -/
def newStep (parentId : Option String) (content : Content) : StepRecord Content where
  schemaVersion := stepSchema
  sequence := sequence
  id := stepId sequence
  correlationId := runId ++ "-" ++ stepId sequence
  parentId := parentId
  content := content

def recordStep (parentId : Option String) (content : Content) (fate : Fate) :
    Call Session Content (StepRecord Content) := do
  recoverSequenceTransaction codec
  let committed ← readSequence
  Durable.lift (ensure (committed < maxJournalSteps)
    "journal rotation is required at the 512-step bound; use a new output directory")
  commitStep codec fate (newStep runId (committed + 1) parentId content)
  pure (newStep runId (committed + 1) parentId content)

def safeReference (value : String) : String :=
  String.ofList ((value.toList.filter fun c => isAsciiLower c || isAsciiUpper c || isAsciiDigit c ||
    "-_./".toList.contains c).take 240)

def renumber (remapped : List (String × String)) (sequence : Nat)
    (step : StepRecord Content) : StepRecord Content :=
  { step with
    sequence := sequence
    id := stepId sequence
    correlationId := runId ++ "-" ++ stepId sequence
    parentId := step.parentId.map fun parent =>
      (remapped.lookup parent).getD (safeReference parent) }

def ingestSteps (runId : String) :
    List (String × String) → List (StepRecord Content × Fate) → Call Session Content Unit
  | _, [] => pure ()
  | remapped, (step, fate) :: transfer => do
    let committed ← readSequence
    commitStep codec fate (renumber runId remapped (committed + 1) step)
    ingestSteps runId ((step.id, stepId (committed + 1)) :: remapped) transfer

/-- `ingest_transfer`, up to the log. -/
def ingestTransfer [DecidableEq Session] (manifest : Manifest Session)
    (transfer : List (StepRecord Content × Fate)) : Call Session Content Unit := do
  Durable.lift (ensure (manifest.schemaVersion = journalSchema) "unsupported journal schema")
  let s ← Durable.load
  let local_ := s.manifest.getD manifest
  Durable.lift (ensure (local_.schemaVersion = manifest.schemaVersion ∧
    local_.session = manifest.session) "journal manifest does not match this execution session")
  Durable.write fun s => { s with manifest := some local_ }
  recoverSequenceTransaction codec
  let merged ← readStepsRecover codec
  writeSequence merged.1.length
  Durable.lift (ensure (merged.1.length + transfer.length ≤ maxJournalSteps)
    "journal rotation is required at the 512-step bound; use a new output directory")
  ingestSteps codec local_.runId [] transfer

inductive Action (Session Content : Type)
  | open (session : Session) (freshRunId : String)
  | record (runId : String) (parentId : Option String) (content : Content) (fate : Fate)
  | ingest (manifest : Manifest Session) (transfer : List (StepRecord Content × Fate))
  | read

/-- The call of an action. -/
def perform [DecidableEq Session] : Action Session Content → Call Session Content Unit
  | .open session freshRunId => openWithDigest codec session freshRunId
  | .record runId parentId content fate => do
    let _ ← recordStep codec runId parentId content fate
  | .ingest manifest transfer => ingestTransfer codec manifest transfer
  | .read => do
    let _ ← readStepsRecover codec

end

end NilsCli.StepJournal
