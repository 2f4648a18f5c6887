import NilsCli.Lib.Text
import NilsCli.Lib.Value
import NilsCli.Coordination.Types

/-!
# The closed-session ledger (`board/ledger.rs`)

The records of the sessions that were removed, with a sequence number each, so that an aggregator
can catch up on the closes it missed.
-/

namespace NilsCli.Board

open Lib Coordination

def ledgerSchema : String := "agent-session.board-closed-ledger.v1"

def closedSchema : String := "agent-session.board-closed.v1"

def recordSchema : String := "agent-session.board-record.v1"

def boardExtensions : List String :=
  ["lineage.v1", "work.v1", "context_usage.v1", "launch_env.v1", "terminal_activity.v1",
    "runtime_exit.v1"]

def maxEntries : Nat := 256

def maxAgeSeconds : Int := 7 * 24 * 60 * 60

def maxLedgerBytes : Nat := 16 * 1024 * 1024

/-- `jiff::Timestamp`, in nanoseconds since the epoch. -/
structure Timestamp where
  nanos : Int
  /-- `Timestamp::MIN` and `Timestamp::MAX`. -/
  inRange : -377705023201000000000 ≤ nanos ∧ nanos ≤ 253402207200999999999

def Timestamp.asSecond (t : Timestamp) : Int := t.nanos.tdiv 1000000000

/-! ## The ledger -/

structure Entry where
  seq : Nat
  record : Value

structure Ledger where
  schemaVersion : String
  ledgerId : String
  lastSeq : Nat
  entries : List Entry

structure Ledger.Bounded (parseUuid : String → Option String) (storable : Value → Prop)
    (ledger : Ledger) : Prop where
  schema : ledger.schemaVersion = ledgerSchema
  id : parseUuid ledger.ledgerId = some ledger.ledgerId
  lastSeq : ledger.lastSeq ≤ u64Max
  seqs : ∀ e ∈ ledger.entries, e.seq ≤ u64Max
  few : ledger.entries.length ≤ maxEntries
  records : ∀ e ∈ ledger.entries, storable e.record

structure LedgerCodec where
  /-- `serde_json::to_vec_pretty`. -/
  toVecPretty : Ledger → List UInt8
  /-- `serde_json::from_slice`. -/
  fromSlice : List UInt8 → Option Ledger
  /-- `Uuid::parse_str`, as the hyphenated text. -/
  parseUuid : String → Option String
  /-- `Timestamp::to_string`. -/
  showTimestamp : Timestamp → String
  /-- `str::parse::<Timestamp>`. -/
  parseTimestamp : String → Option Timestamp
  /-- The records that are small enough for `maxEntries` of them to fit into a ledger file, and that
  nest no deeper than the reader follows. -/
  storable : Value → Prop
  parse_show : ∀ t, parseTimestamp (showTimestamp t) = some t
  reads_back : ∀ ledger : Ledger, ledger.Bounded parseUuid storable →
    fromSlice (toVecPretty ledger) = some ledger
  fits : ∀ ledger : Ledger, ledger.Bounded parseUuid storable →
    (toVecPretty ledger).length ≤ maxLedgerBytes

section
variable (codec : LedgerCodec)

variable (fresh machine : String)

def closedAtEpoch (record : Value) : Option Int := do
  let text ← (← record.get "closed_at").asStr
  return (← codec.parseTimestamp text).asSecond

namespace Ledger

/-- `Ledger::empty` with the id that the generator gives. -/
def empty : Ledger := ⟨ledgerSchema, fresh, 0, []⟩

def young (now : Int) (e : Entry) : Bool :=
  match closedAtEpoch codec e.record with
  | some closed => i64Sub now closed ≤ maxAgeSeconds
  | none => false

def prunedEntries (now : Int) (entries : List Entry) : List Entry :=
  let retained := entries.filter (young codec now)
  retained.drop (retained.length - maxEntries)

def prune (now : Int) (ledger : Ledger) : Ledger × Bool :=
  let entries := prunedEntries codec now ledger.entries
  ({ ledger with entries }, entries.length ≠ ledger.entries.length)

section
variable {codec} {now : Int} {ledger : Ledger}

@[simp] theorem prune_schemaVersion :
    (ledger.prune codec now).1.schemaVersion = ledger.schemaVersion := by
  simp only [prune]

@[simp] theorem prune_ledgerId : (ledger.prune codec now).1.ledgerId = ledger.ledgerId := by
  simp only [prune]

@[simp] theorem prune_lastSeq : (ledger.prune codec now).1.lastSeq = ledger.lastSeq := by
  simp only [prune]

@[simp] theorem prune_entries :
    (ledger.prune codec now).1.entries = prunedEntries codec now ledger.entries := by
  simp only [prune]

end

/-- The test of a ledger that was read. -/
def consistent (ledger : Ledger) : Bool :=
  ledger.schemaVersion = ledgerSchema ∧ (codec.parseUuid ledger.ledgerId).isSome ∧
    ledger.entries.IsChain (·.seq < ·.seq) ∧
    ∀ e ∈ ledger.entries, 1 ≤ e.seq ∧ e.seq ≤ ledger.lastSeq

end Ledger

/-! ## Cursors -/

def cursor (ledgerId : String) (seq : Nat) : String :=
  .ofList ([':'].intercalate (["v1", ledgerId, toString seq].map (·.toList)))

def Ledger.head (ledger : Ledger) : String := cursor ledger.ledgerId ledger.lastSeq

def parseCursor (raw : String) : Option (String × Nat) :=
  match splitAt raw ':' with
  | [pre, id, seq] =>
    if pre ≠ "v1" then none
    else match codec.parseUuid id with
      | none => none
      | some id =>
        if seq.toList = [] ∨ ¬ seq.toList.all isAsciiDigit then none
        else (parseU64 seq).map (id, ·)
  | _ => none

def unavailable : CliError :=
  .unavailableErr "board-ledger-unavailable" "the closed-session ledger is unavailable"

def cursorInvalid : CliError :=
  .usageErr "board-cursor-invalid" "the closed-session cursor is malformed"

def cursorExpired : CliError :=
  .dataErr "board-cursor-expired"
    "the closed-session cursor has expired; resynchronize from the full ledger"

/-! ## The ledger file -/

inductive Loaded
  | present (ledger : Ledger)
  | missing
  | replaceable

def readLedger : Option (List UInt8) → Loaded
  | none => .missing
  | some bytes =>
    if maxLedgerBytes < bytes.length then .replaceable
    else match codec.fromSlice bytes with
      | none => .replaceable
      | some ledger => if ledger.consistent codec then .present ledger else .replaceable

/-- The ledger that a call works on, whether it has to be written, and the file meanwhile. -/
structure Opened where
  ledger : Ledger
  changed : Bool
  file : Option (List UInt8)

/-- The start of `with_ledger`. -/
def openLedger (file : Option (List UInt8)) : Opened :=
  match readLedger codec file with
  | .present ledger => ⟨ledger, false, file⟩
  | .missing => ⟨.empty fresh, true, none⟩
  -- the unreadable file is renamed
  | .replaceable => ⟨.empty fresh, true, none⟩

/-- The ledger that a call sees. -/
@[irreducible] def seenLedger (now : Timestamp) (file : Option (List UInt8)) : Ledger :=
  ((openLedger codec fresh file).ledger.prune codec now.asSecond).1

structure Outcome (α : Type) where
  result : Except CliError α
  file : Option (List UInt8)
  written : Option Ledger

def withLedger {α : Type} (fresh : String) (now : Timestamp)
    (operate : Ledger → Except CliError (α × Ledger × Bool)) (file : Option (List UInt8)) :
    Outcome α :=
  let opened := openLedger codec fresh file
  let pruned := opened.ledger.prune codec now.asSecond
  match operate pruned.1 with
  | .error e => ⟨.error e, opened.file, none⟩
  | .ok (value, ledger, operated) =>
    if opened.changed || pruned.2 || operated then
      ⟨.ok value, some (codec.toVecPretty ledger), some ledger⟩
    else ⟨.ok value, opened.file, none⟩

/-! ## The calls -/

/-- The record as it is stored. -/
def closedRecord (closedAt : Timestamp) (record : Value) : Value :=
  record.insert "closed_at" (.string (codec.showTimestamp closedAt))

/-- The change that `append` makes. -/
def appendEntry (closedAt after : Timestamp) (record : Value) (ledger : Ledger) :
    Except CliError (Unit × Ledger × Bool) :=
  if ledger.lastSeq < u64Max then
    let entry : Entry := ⟨ledger.lastSeq + 1, closedRecord codec closedAt record⟩
    let ledger := { ledger with lastSeq := ledger.lastSeq + 1, entries := ledger.entries ++ [entry] }
    .ok ((), (ledger.prune codec after.asSecond).1, true)
  else .error unavailable

def append (now closedAt after : Timestamp) (record : Value)
    (file : Option (List UInt8)) : Outcome Unit :=
  withLedger codec fresh now (appendEntry codec closedAt after record) file

def headCursor (now : Timestamp) (file : Option (List UInt8)) : Outcome String :=
  withLedger codec fresh now (fun ledger => .ok (ledger.head, ledger, false)) file

/-- One entry of a page. -/
structure ClosedEntry where
  cursor : String
  record : Value

/-- The answer of `read_since`. -/
structure ClosedPage where
  schemaVersion : String
  recordSchema : String
  extensions : List String
  machine : String
  generatedAt : String
  entries : List ClosedEntry
  nextCursor : String

def stampRecord (record : Value) : Value :=
  let named := (record.insert "machine" (.string machine)).orInsert "launch_env" (.object [])
  ["role", "lineage", "work", "model", "reasoning_effort"].foldl
    (fun record key => record.orInsert key .null) named

/-- The sequence number after which a read starts. -/
def afterSeq (after : Option (String × Nat)) (ledger : Ledger) : Except CliError Nat :=
  match after with
  | none => .ok 0
  | some (ledgerId, seq) =>
    if ledgerId ≠ ledger.ledgerId ∨ ledger.lastSeq < seq then .error cursorExpired
    else if (ledger.entries.filter (seq < ·.seq)).length ≠ ledger.lastSeq - seq then
      .error cursorExpired
    else .ok seq

def pageEntries (after : Nat) (ledger : Ledger) : List ClosedEntry :=
  (ledger.entries.filter (after < ·.seq)).map fun e =>
    ⟨cursor ledger.ledgerId e.seq, stampRecord machine e.record⟩

/-- The answer to a read after a sequence number. -/
def closedPage (generated : Timestamp) (after : Nat) (ledger : Ledger) : ClosedPage where
  schemaVersion := closedSchema
  recordSchema := recordSchema
  extensions := boardExtensions
  machine := machine
  generatedAt := codec.showTimestamp generated
  entries := pageEntries machine after ledger
  nextCursor :=
    match (pageEntries machine after ledger).getLast? with
    | some e => e.cursor
    | none => ledger.head

/-- The operation of `read_since` on the ledger. -/
def readEntries (generated : Timestamp) (after : Option (String × Nat))
    (ledger : Ledger) : Except CliError (ClosedPage × Ledger × Bool) :=
  match afterSeq after ledger with
  | .error e => .error e
  | .ok seq => .ok (closedPage codec machine generated seq ledger, ledger, false)

def readSince (now generated : Timestamp) (since : Option String)
    (machine : String) (file : Option (List UInt8)) : Outcome ClosedPage :=
  match since with
  | none => withLedger codec fresh now (readEntries codec machine generated none) file
  | some raw =>
    match parseCursor codec raw with
    | none => ⟨.error cursorInvalid, file, none⟩
    | some after => withLedger codec fresh now (readEntries codec machine generated (some after)) file

end

end NilsCli.Board
