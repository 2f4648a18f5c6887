import NilsCli.Lib.Lines
import NilsCli.Lib.Saturating
import NilsCli.Lib.Table
import NilsCli.Lib.Text

/-!
# Diff anchors

A review thread is anchored at a line of one side of a diff.
-/

namespace NilsCli.Review

open Lib

/-! ## Texts -/

/-- A line without the carriage return at its end. -/
def stripCr (line : List Char) : List Char :=
  if line.getLast? = some '\r' then line.dropLast else line

/-- `str::lines`: a carriage return goes only with the line feed after it. -/
def textLines (text : List Char) : List (List Char) :=
  let parts := text.splitOn '\n'
  parts.dropLast.map stripCr ++ (parts.getLast?.filter (· ≠ [])).toList

def splitWhitespace (text : List Char) : List (List Char) :=
  (text.splitOnP isWhitespace).filter (· ≠ [])

/-- `str::split_once`: what is before the first occurrence of the pattern, and after it. -/
def splitOnce (pattern : List Char) : List Char → Option (List Char × List Char)
  | [] => if pattern = [] then some ([], []) else none
  | c :: cs =>
    if pattern.isPrefixOf (c :: cs) then some ([], (c :: cs).drop pattern.length)
    else (splitOnce pattern cs).map fun parts => (c :: parts.1, parts.2)

/-- `str::parse::<u32>`: an optional `+` and at least one digit, below `2 ^ 32`. -/
def parseU32 (text : List Char) : Option Nat :=
  let digits := match text with
    | '+' :: rest => rest
    | cs => cs
  if digits = [] ∨ ¬ digits.all isAsciiDigit then none
  else
    let n := digits.foldl (fun n c => 10 * n + (c.toNat - '0'.toNat)) 0
    if n ≤ u32Max then some n else none

def checkedSucc32 (n : Nat) : Option Nat := if n < u32Max then some (n + 1) else none

/-! ## The lines of a patch that take a thread -/

inductive ReviewThreadDiffSide where
  | left
  | right
  deriving DecidableEq

/-- The rows of a hunk by their line numbers. -/
structure CommentableHunk where
  leftPositions : Table Nat Nat
  rightPositions : Table Nat Nat

namespace CommentableHunk

def empty : CommentableHunk := ⟨∅, ∅⟩

def position (hunk : CommentableHunk) (side : ReviewThreadDiffSide) (line : Nat) : Option Nat :=
  match side with
  | .left => hunk.leftPositions.lookup line
  | .right => hunk.rightPositions.lookup line

/-- The insertion into the positions of one side. -/
def insert (hunk : CommentableHunk) (anchor : ReviewThreadDiffSide × Nat) (position : Nat) :
    CommentableHunk :=
  match anchor.1 with
  | .left => { hunk with leftPositions := hunk.leftPositions.insert anchor.2 position }
  | .right => { hunk with rightPositions := hunk.rightPositions.insert anchor.2 position }

end CommentableHunk

def parseHunkStart (span : List Char) : Option Nat := parseU32 (span.takeWhile (· ≠ ','))

def parseHunkHeader (line : List Char) : Option (Nat × Nat) :=
  match splitWhitespace line with
  | ['@', '@'] :: ('-' :: oldSpan) :: ('+' :: newSpan) :: _ => do
    let oldStart ← parseHunkStart oldSpan
    let newStart ← parseHunkStart newSpan
    return (oldStart, newStart)
  | _ => none

structure HunkScan where
  hunks : List CommentableHunk
  current : Option CommentableHunk
  oldLine : Option Nat
  newLine : Option Nat
  diffPosition : Nat

def isHeader (line : List Char) : Bool := ['@', '@'].isPrefixOf line

def scanLine (scan : HunkScan) (line : List Char) : HunkScan :=
  if isHeader line then
    let hunks := scan.hunks ++ scan.current.toList
    match parseHunkHeader line with
    | some (oldStart, newStart) => ⟨hunks, some .empty, some oldStart, some newStart, 0⟩
    | none => { scan with hunks, current := none, oldLine := none, newLine := none }
  else
    match scan.oldLine, scan.newLine, scan.current with
    | some old, some new, some hunk =>
      match line.head? with
      | some ' ' =>
        { scan with
          current := some (hunk.insert (.right, new) scan.diffPosition)
          oldLine := checkedSucc32 old
          newLine := checkedSucc32 new
          diffPosition := scan.diffPosition + 1 }
      | some '-' =>
        { scan with
          current := some (hunk.insert (.left, old) scan.diffPosition)
          oldLine := checkedSucc32 old
          diffPosition := scan.diffPosition + 1 }
      | some '+' =>
        { scan with
          current := some (hunk.insert (.right, new) scan.diffPosition)
          newLine := checkedSucc32 new
          diffPosition := scan.diffPosition + 1 }
      | _ => scan
    | _, _, _ => scan

def commentableHunksBySide (patch : List Char) : List CommentableHunk :=
  let scan := (textLines patch).foldl scanLine ⟨[], none, none, none, 0⟩
  scan.hunks ++ scan.current.toList

def findCommentableLine (hunks : List CommentableHunk) (side : ReviewThreadDiffSide) (line : Nat) :
    Option (Nat × Nat) :=
  hunks.zipIdx.findSome? fun hunk => (hunk.1.position side line).map fun position =>
    (hunk.2, position)

def rangeIsCommentableInSingleHunk (hunks : List CommentableHunk)
    (startSide : ReviewThreadDiffSide) (startLine : Nat) (endSide : ReviewThreadDiffSide)
    (endLine : Nat) : Bool :=
  hunks.any fun hunk =>
    match hunk.position startSide startLine, hunk.position endSide endLine with
    | some startPos, some endPos => startPos ≤ endPos
    | _, _ => false

/-! ## The side of a posted thread -/

def parseDiffHunkStarts (header : List Char) : Option (Nat × Nat) :=
  match header with
  | '@' :: '@' :: ' ' :: '-' :: body => do
    let (oldSpan, rest) ← splitOnce [' ', '+'] body
    let (newSpan, _) ← splitOnce [' ', '@', '@'] rest
    let oldStart ← parseU32 (oldSpan.takeWhile (· ≠ ','))
    let newStart ← parseU32 (newSpan.takeWhile (· ≠ ','))
    return (oldStart, newStart)
  | _ => none

/-- The local variables of `infer_side_from_diff_hunk`; the line numbers are set together. -/
structure SideScan where
  lines : Option (Nat × Nat)
  candidates : List ReviewThreadDiffSide

def inferRow (anchorLine : Nat) (scan : SideScan) (row : List Char) : Option SideScan :=
  if isHeader row then do
    let starts ← parseDiffHunkStarts row
    return { scan with lines := some starts }
  else
    match scan.lines with
    | none => some scan
    | some (old, new) =>
      let candidate (line : Nat) (side : ReviewThreadDiffSide) :=
        if line = anchorLine then scan.candidates ++ [side] else scan.candidates
      match row.head? with
      | some '+' => some ⟨some (old, u32Succ new), candidate new .right⟩
      | some '-' => some ⟨some (u32Succ old, new), candidate old .left⟩
      | some ' ' => some ⟨some (u32Succ old, u32Succ new), candidate new .right⟩
      | _ => some scan

def inferSideFromDiffHunk (diffHunk : List Char) (anchorLine : Nat) :
    Option ReviewThreadDiffSide := do
  let scan ← (textLines diffHunk).foldlM (inferRow anchorLine) ⟨none, []⟩
  let side ← scan.candidates.head?
  if scan.candidates.all (· = side) then some side else none

/-! ## Hunks -/

/-- A row of a hunk, with the text after its sign. -/
inductive DiffRow where
  | context (text : List Char)
  | deleted (text : List Char)
  | added (text : List Char)
  | noNewline (text : List Char)

namespace DiffRow

def sign : DiffRow → Char
  | context _ => ' '
  | deleted _ => '-'
  | added _ => '+'
  | noNewline _ => '\\'

def text : DiffRow → List Char
  | context text | deleted text | added text | noNewline text => text

def line (row : DiffRow) : List Char := row.sign :: row.text

end DiffRow

structure Hunk where
  oldStart : Nat
  oldCount : Option Nat
  newStart : Nat
  newCount : Option Nat
  /-- What follows the ranges. -/
  rest : List Char
  rows : List DiffRow

variable (hunk : Hunk)

def rowAnchors : Nat → Nat → List DiffRow → List (ReviewThreadDiffSide × Nat)
  | _, _, [] => []
  | old, new, .context _ :: rows => (.right, new) :: rowAnchors (old + 1) (new + 1) rows
  | old, new, .deleted _ :: rows => (.left, old) :: rowAnchors (old + 1) new rows
  | old, new, .added _ :: rows => (.right, new) :: rowAnchors old (new + 1) rows
  | old, new, .noNewline _ :: rows => rowAnchors old new rows

def oldRows (rows : List DiffRow) : Nat :=
  rows.countP fun row => row matches .context _ | .deleted _

def newRows (rows : List DiffRow) : Nat :=
  rows.countP fun row => row matches .context _ | .added _

def span (start : Nat) (count : Option Nat) : List Char :=
  Nat.toDigits 10 start ++ (count.elim [] fun count => ',' :: Nat.toDigits 10 count)

namespace Hunk

def anchors : List (ReviewThreadDiffSide × Nat) :=
  rowAnchors hunk.oldStart hunk.newStart hunk.rows

/-- The header up to the end of the ranges. -/
def ranges : List Char :=
  ['@', '@', ' ', '-'] ++ span hunk.oldStart hunk.oldCount ++ [' ', '+'] ++
    span hunk.newStart hunk.newCount ++ [' ', '@', '@']

def lines : List (List Char) :=
  (hunk.ranges ++ hunk.rest) :: hunk.rows.map (·.line)

def OnLines : Prop := '\n' ∉ hunk.rest ∧ ∀ row ∈ hunk.rows, '\n' ∉ row.text

/-- The line numbers of the rows, and those after the last row, are below `2 ^ 32`. -/
def Numbered : Prop :=
  hunk.oldStart + oldRows hunk.rows < 2 ^ 32 ∧ hunk.newStart + newRows hunk.rows < 2 ^ 32

/-- The part of the hunk up to a row. -/
def upTo (n : Nat) : Hunk := { hunk with rows := hunk.rows.take n }

end Hunk

def joinLines (lines : List (List Char)) (ended : Bool) : List Char :=
  if ended then terminated '\n' lines else ['\n'].intercalate lines

/-- The text of a patch. -/
def patchText (hunks : List Hunk) (ended : Bool) : List Char :=
  joinLines (hunks.flatMap (·.lines)) ended

end NilsCli.Review
