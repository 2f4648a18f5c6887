import NilsCli.Lib.Guard
import NilsCli.Tracker.Grammar

/-!
# Edits of a tracker body

`write_graph` rewrites the dependency graph block, `tick` one row of the phase table.
-/

namespace NilsCli.Tracker

open Lib

variable (raw : List Line) (at_ : Nat)

/-- The segments of a body, joined again. -/
def joinSegments : String := .ofList (['\n'].intercalate raw)

/-! ## The graph -/

def graphHeading : Line := "## Dependency graph".toList

inductive GraphChange where
  | none
  | replacedBlock
  | insertedBlock
  | insertedSection
  deriving DecidableEq

structure GraphEdit where
  body : String
  change : GraphChange

def endsWithReturn (raw : Line) : Bool := raw.getLast? = some '\r'

def usesCrlf : Bool :=
  let terminated := raw.length - 1
  let probe := min (at_ - 1) (terminated - 1)
  terminated > 0 && endsWithReturn (raw.getD probe [])

/-- The old last line gets a full line ending. -/
def endLast (out : List Line) : List Line :=
  match out.getLast? with
  | none => out
  | some last => if endsWithReturn last then out else out.dropLast ++ [last ++ ['\r']]

def insertedLines (crlf appending : Bool) : List Line → List Line
  | [] => []
  | [line] => [if crlf && !appending then line ++ ['\r'] else line]
  | line :: rest => (if crlf then line ++ ['\r'] else line) :: insertedLines crlf appending rest

/-- The segments of the body with `new` lines in place of `remove` segments at `at_`. -/
def spliced (remove : Nat) (new : List Line) : List Line :=
  let crlf := usesCrlf raw at_
  let appending := decide (at_ = raw.length)
  let out := raw.take at_
  let out := if crlf && appending then endLast out else out
  out ++ insertedLines crlf appending new ++ raw.drop (at_ + remove)

def splice (remove : Nat) (new : List Line) : String :=
  joinSegments (spliced raw at_ remove new)

def fenced (graph : List Line) : List Line := openFence :: (graph ++ [closeFence])

def nextHeading : Option Nat :=
  ((sectionOf (raw.map lineText) phaseTable).map (·.stop)).filter fun stop => stop < raw.length

def writeGraph (body : String) (graph : List Line) : GraphEdit :=
  let raw := segments body
  let lines := raw.map lineText
  match locateGraph lines with
  | .block start stop =>
    if (lines.take stop).drop (start + 1) = graph then ⟨body, .none⟩
    else ⟨splice raw (start + 1) (stop - start - 1) graph, .replacedBlock⟩
  | .noBlock heading =>
    let new := [] :: fenced graph
    let new := if (lines[heading + 1]?).any (· ≠ []) then new ++ [[]] else new
    ⟨splice raw (heading + 1) 0 new, .insertedBlock⟩
  | .noSection =>
    let next := nextHeading raw
    let at_ := next.getD (if raw.getLast? = some [] then raw.length - 1 else raw.length)
    let new := if at_ > 0 ∧ lines.getD (at_ - 1) [] ≠ [] then [[]] else []
    let new := new ++ [graphHeading, []] ++ fenced graph
    let new := if next.isSome then new ++ [[]] else new
    ⟨splice raw at_ 0 new, .insertedSection⟩

/-! ## One row -/

inductive TickError where
  | unknownItem
  | duplicateItem (lines : List Nat)
  | malformedRow (lines : List Nat)
  | invalidPr
  | tooManyRows
  deriving DecidableEq

structure TickEdit where
  body : String
  /-- 1-based line number of the row. -/
  line : Nat
  before : Line
  after : Line
  deriving DecidableEq

def prIsRecordable (pr : Line) : Bool :=
  pr ≠ [] && !pr.any fun c =>
    isWhitespace c || isControl c || c = '(' || c = ')' || c = ',' || c.toNat = 0xB7

/-- No letter or digit stands there. -/
def isBoundary (c : Option Char) : Bool := !c.any isAsciiAlphanumeric

def namesFrom (entry : Line) (last : Option Char) : Nat → Line → Bool
  | _, [] => false
  | skip + 1, c :: cs => namesFrom entry (some c) skip cs
  | 0, c :: cs =>
    if entry.isPrefixOf (c :: cs) then
      (isBoundary last && isBoundary ((c :: cs).drop entry.length).head?) ||
        namesFrom entry (some c) (entry.length - 1) cs
    else namesFrom entry (some c) 0 cs

def names_ (notes entry : Line) : Bool := namesFrom entry none 0 notes

/-- `PR <ref>`. -/
def prEntry (pr : Line) : Line := "PR ".toList ++ pr

/-- `insert_str`. -/
def insertAt (text : Line) (at_ : Nat) (added : Line) : Line :=
  text.take at_ ++ added ++ text.drop at_

/-- The row line with the entry in its notes. -/
def recordPr (before : Line) (spans : RowSpans) (pr : Line) : Line :=
  match spans.notes with
  | some (opening, close) =>
    let inner := (before.take close).drop (opening + 1)
    if names_ inner (prEntry pr) then before
    else
      insertAt before (opening + 1 + (inner.rdropWhile isBlank).length)
        (", ".toList ++ prEntry pr)
  | none => insertAt before spans.textEnd (" (".toList ++ prEntry pr ++ ")".toList)

/-- The edited row line. -/
def tickLine (before : Line) (row : Row) (spans : RowSpans) (pr : Option Line) : Line :=
  let after := match pr with
    | some pr => recordPr before spans pr
    | none => before
  if row.done then after else after.set 3 'x'

/-- The valid rows with an id, with their places. -/
def rowsOf (item : String) (rowLines : List (Nat × RowLine)) : List (Nat × Row × RowSpans) :=
  rowLines.filterMap fun (at_, line) => match line with
    | .row row spans => if row.id = item then some (at_, row, spans) else none
    | .malformed _ => none

def malformedOf (item : String) (rowLines : List (Nat × RowLine)) : List Nat :=
  rowLines.filterMap fun (at_, line) => match line with
    | .row _ _ => none
    | .malformed shownId => if shownId = some item.toList then some (at_ + 1) else none

def tick (body : String) (item : String) (pr : Option Line) : Except TickError TickEdit := do
  ensure (pr.all prIsRecordable = true) .invalidPr
  let raw := segments body
  let lines := raw.map lineText
  let rowLines := scan lines
  ensure (rowLines.length ≤ maxRows) .tooManyRows
  let malformed := malformedOf item rowLines
  ensure (malformed = []) (.malformedRow malformed)
  match rowsOf item rowLines with
  | [] => .error .unknownItem
  | [(at_, row, spans)] =>
    let before := lines.getD at_ []
    let after := tickLine before row spans pr
    let line := after ++ (raw.getD at_ []).drop before.length
    .ok ⟨joinSegments (raw.set at_ line), at_ + 1, before, after⟩
  | rows => .error (.duplicateItem (rows.map fun (at_, _, _) => at_ + 1))

end NilsCli.Tracker
