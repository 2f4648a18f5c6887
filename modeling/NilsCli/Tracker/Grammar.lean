import Mathlib.Data.List.DropRight
import NilsCli.Tracker.Rows

/-!
# The tracker grammar

A body is split at line feeds, and the end of each line is removed.
-/

namespace NilsCli.Tracker

open Lib

abbrev Line := List Char

/-! ## Lines -/

/-- Removed from the end of every line. -/
def isLineEnd (c : Char) : Bool := c = ' ' || c = '\t' || c = '\r'

/-- Removed by every other trim. -/
def isBlank (c : Char) : Bool := c = ' ' || c = '\t'

def phaseTable : Line := "## phase table".toList
def dependencyGraph : Line := "## dependency graph".toList
def openFence : Line := "\x60\x60\x60mermaid".toList
def closeFence : Line := "\x60\x60\x60".toList

def rowMarks : List Line := ["- [ ]".toList, "- [x]".toList, "- [X]".toList]

/-- Space, middle dot, space, `after`. -/
def afterMark : Line := ' ' :: Char.ofNat 0xB7 :: " after".toList

def lineText (raw : Line) : Line := raw.rdropWhile isLineEnd

/-- The segments between line feeds. -/
def segments (body : String) : List Line := body.toList.splitOn '\n'

/-- The body as grammar lines. -/
def lines (body : String) : List Line := (segments body).map lineText

def trim (text : Line) : Line := (text.dropWhile isBlank).rdropWhile isBlank

def lower (c : Char) : Char := if isAsciiUpper c then Char.ofNat (c.toNat + 32) else c

def eqIgnoreAsciiCase (a b : Line) : Bool := a.map lower = b.map lower

/-- `strip_prefix`. -/
def dropPrefix? (text start : Line) : Option Line :=
  if start.isPrefixOf text then some (text.drop start.length) else none

/-- The line ends a section. -/
def isHeading (line : Line) : Bool := "## ".toList.isPrefixOf line

/-! ## Sections -/

structure Section where
  heading : Nat
  stop : Nat

def sectionOf (lines : List Line) (heading : Line) : Option Section :=
  (lines.findIdx? fun line => eqIgnoreAsciiCase line heading).map fun start =>
    { heading := start
      stop := match (lines.drop (start + 1)).findIdx? isHeading with
        | none => lines.length
        | some offset => start + 1 + offset }

/-- The lines of a section below its heading. -/
def Section.body (sec : Section) (lines : List Line) : List Line :=
  (lines.take sec.stop).drop (sec.heading + 1)

inductive GraphLocation where
  | noSection
  | noBlock (heading : Nat)
  | block (start stop : Nat)

def locateGraph (lines : List Line) : GraphLocation :=
  match sectionOf lines dependencyGraph with
  | none => .noSection
  | some sec =>
    let body := sec.body lines
    match body.findIdx? (· = openFence) with
    | none => .noBlock sec.heading
    | some start =>
      match (body.drop (start + 1)).findIdx? (· = closeFence) with
      | none => .noBlock sec.heading
      | some offset =>
        .block (sec.heading + 1 + start) (sec.heading + 1 + (start + 1 + offset))

/-! ## Row lines -/

def isAsciiAlphanumeric (c : Char) : Bool := isAsciiLower c || isAsciiUpper c || isAsciiDigit c

def isId (text : Line) : Bool :=
  match text with
  | [] => false
  | c :: cs => isAsciiUpper c && cs.all isAsciiAlphanumeric

/-- An owner or repository name in a ref. -/
def isName (text : Line) : Bool :=
  text ≠ [] && text.all fun c => isAsciiAlphanumeric c || c = '.' || c = '_' || c = '-'

/-- `split_once`: at the first separator. -/
def splitOnce (sep : Char) : Line → Option (Line × Line)
  | [] => none
  | c :: cs => if c = sep then some ([], cs) else (splitOnce sep cs).map fun (a, b) => (c :: a, b)

/-- `rsplit_once`: at the last separator. -/
def rsplitOnce (sep : Char) : Line → Option (Line × Line)
  | [] => none
  | c :: cs =>
    match rsplitOnce sep cs with
    | some (a, b) => some (c :: a, b)
    | none => if c = sep then some ([], cs) else none

def digitsValue (digits : Line) : Nat :=
  digits.foldl (fun n c => 10 * n + (c.toNat - '0'.toNat)) 0

def parseRef (text : Line) : Option IssueRef := do
  let (repository, digits) ← rsplitOnce '#' text
  if digits = [] ∨ digits.length > 15 ∨ digits.head? = some '0' ∨ ¬ digits.all isAsciiDigit then
    none
  else if repository = [] then some ⟨none, none, digitsValue digits⟩
  else do
    let (owner, repo) ← splitOnce '/' repository
    if isName owner && isName repo then
      some ⟨some (.ofList owner), some (.ofList repo), digitsValue digits⟩
    else none

def splitStars : Line → Option (Line × Line)
  | '*' :: '*' :: cs => some ([], cs)
  | c :: cs => (splitStars cs).map fun (a, b) => (c :: a, b)
  | [] => none

def rowPrefix (line : Line) : Option (Bool × Line × Line) := do
  let done ←
    if "- [ ] ".toList.isPrefixOf line then some false
    else if "- [x] ".toList.isPrefixOf line || "- [X] ".toList.isPrefixOf line then some true
    else none
  let rest ← dropPrefix? (line.drop 6) "**".toList
  let (id, tail) ← splitStars rest
  if isId id then some (done, id, tail) else none

/-- What may follow the dependency mark. -/
def endsMark (next : Line) : Bool :=
  match next with
  | [] => true
  | c :: _ => c = ' '

def splitClause : Line → Option (Line × Line)
  | [] => none
  | c :: cs =>
    match splitClause cs with
    | some (head, next) => some (c :: head, next)
    | none =>
      match dropPrefix? (c :: cs) afterMark with
      | some next => if endsMark next then some ([], next) else none
      | none => none

def parseEntries (seen : List Line) : List Line → Option (List Line)
  | [] => some []
  | entry :: entries =>
    let entry := trim entry
    if isId entry = false ∨ entry ∈ seen then none
    else (parseEntries (entry :: seen) entries).map (entry :: ·)

def openingFrom (depth : Nat) (behind : Line) : Line → Option (Line × Line)
  | [] => none
  | c :: before =>
    let depth := if c = ')' then depth + 1 else if c = '(' then depth - 1 else depth
    if depth = 0 then some (before.reverse, behind) else openingFrom depth (c :: behind) before

def notesGroup (text : Line) : Option (Line × Line) :=
  if text.getLast? = some ')' then
    match openingFrom 0 [] text.reverse with
    | none => none
    | some (front, behind) =>
      let inner := behind.dropLast
      if front.getLast? = some ' ' ∧ trim inner ≠ [] then some (front, inner) else none
  else none

/-- `: <ref>` at the end of a text: what stands in front of it, and the reference. -/
def refSuffix (text : Line) : Option (Line × IssueRef) := do
  let (head, candidate) ← rsplitOnce ' ' text
  if head.getLast? = some ':' then do
    let parsed ← parseRef candidate
    some (head.dropLast, parsed)
  else none

structure RowSpans where
  /-- The end of the text before the dependency clause. -/
  textEnd : Nat
  /-- The parentheses of the notes group. -/
  notes : Option (Nat × Nat)

def clauseOf (tail : Line) : Option (Line × List Line) :=
  match splitClause tail with
  | none => some (tail, [])
  | some (head, next) => (parseEntries [] ((trim next).splitOn ',')).map fun after => (head, after)

/-- One row line; `none` means malformed. -/
def parseRow (line : Line) : Option (Row × RowSpans) := do
  let (done, id, tail) ← rowPrefix line
  if tail.head? ≠ some ' ' then none
  else do
    let (head, after) ← clauseOf tail
    let tailStart := line.length - tail.length
    let textStart := tailStart + (head.length - (head.dropWhile isBlank).length)
    let text := trim head
    let textEnd := textStart + text.length
    let group := notesGroup text
    let front := match group with
      | some (front, _) => trim front
      | none => text
    let ref := refSuffix front
    let title := match ref with
      | some (title, _) => trim title
      | none => front
    if title = [] then none
    else
      some
        ({ id := .ofList id
           title := .ofList title
           reference := ref.map (·.2)
           notes := group.map fun (_, inner) => .ofList (trim inner)
           after := after.map .ofList
           done
           phase := none
           line := 0 },
         { textEnd
           notes := group.map fun (front, _) => (textStart + front.length, textEnd - 1) })

/-- A row line of the phase table. -/
inductive RowLine where
  | row (row : Row) (spans : RowSpans)
  | malformed (shownId : Option Line)

def rowLine (phase : Option String) (at_ : Nat) (line : Line) : RowLine :=
  match parseRow line with
  | some (row, spans) => .row { row with phase, line := at_ + 1 } spans
  | none => .malformed ((rowPrefix line).map fun (_, id, _) => id)

def isRowMark (line : Line) : Bool := rowMarks.any (·.isPrefixOf line)

def scanFrom (at_ : Nat) (phase : Option String) : List Line → List (Nat × RowLine)
  | [] => []
  | line :: rest =>
    match dropPrefix? line "### ".toList with
    | some name =>
      scanFrom (at_ + 1) (if trim name = [] then phase else some (.ofList (trim name))) rest
    | none =>
      if isRowMark line then (at_, rowLine phase at_ line) :: scanFrom (at_ + 1) phase rest
      else scanFrom (at_ + 1) phase rest

def scan (lines : List Line) : List (Nat × RowLine) :=
  match sectionOf lines phaseTable with
  | none => []
  | some table => scanFrom (table.heading + 1) none (table.body lines)

def tableOf (rowLines : List (Nat × RowLine)) : Table where
  rows := rowLines.filterMap fun (_, line) => match line with
    | .row row _ => some row
    | .malformed _ => none
  malformed := rowLines.filterMap fun (at_, line) => match line with
    | .row _ _ => none
    | .malformed _ => some (at_ + 1)

def parse (body : String) : Table := tableOf (scan (lines body))

def hasPhaseTable (body : String) : Bool := (sectionOf (lines body) phaseTable).isSome

/-! ## The graph -/

def nodeLine (row : Row) : Line :=
  match row.reference with
  | some _ => "  ".toList ++ row.id.toList
  | none => "  ".toList ++ row.id.toList ++ "\x7b\x7b".toList ++ row.id.toList ++ "\x7d\x7d".toList

def edgeLine (row : Row) (dependency : String) : Line :=
  "  ".toList ++ dependency.toList ++ " --> ".toList ++ row.id.toList

def generate (rows : List Row) : List Line :=
  "graph LR".toList :: (rows.map nodeLine ++ rows.flatMap fun row => row.after.map (edgeLine row))

/-- The lines of the dependency graph block. -/
def graphBlock (body : String) : Option (List Line) :=
  match locateGraph (lines body) with
  | .block start stop => some (((lines body).take stop).drop (start + 1))
  | .noBlock _ => none
  | .noSection => none

structure Report where
  rows : List Row
  findings : List Finding

def lint (body : String) : Report :=
  let table := parse body
  let findings := rowFindings table
  { rows := table.rows
    findings :=
      if findings = [] ∧ graphBlock body ≠ some (generate table.rows) then
        findings ++ [⟨.staleGraph, none, []⟩]
      else findings }

end NilsCli.Tracker
