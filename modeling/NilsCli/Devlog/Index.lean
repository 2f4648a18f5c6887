import NilsCli.Devlog.Dates

/-!
# The index of a log

The index is a document with two generated sections: the list of the months, newest first, and the list
of the pending entries under a marker.
-/

namespace NilsCli.Devlog

open Lib

/-! ## Reading -/

def sectionMark : Text := "## ".toList

def monthsHeading : Text := "## Months".toList

def pendingHeading : Text := "## Pending".toList

/-- The month that a line of the list names. -/
def listedMonth (line : Text) : Option Month :=
  ("- [".toList.isPrefixOf? (trimmed line)).bind fun rest =>
    (splitOnce [']'] rest).bind fun parts => parseMonth parts.1

/-- The loop of `listed_months`. -/
def listedFrom : Bool → List Text → List Month
  | _, [] => []
  | inSection, line :: lines =>
    if sectionMark.isPrefixOf line then listedFrom (trimmed line = monthsHeading) lines
    else if inSection then (listedMonth line).toList ++ listedFrom inSection lines
    else listedFrom inSection lines

def listedMonths (index : Text) : List Month := listedFrom false (linesOf index)

/-! ## Writing -/

/-- `join("\n")`. -/
def joinLines (lines : List Text) : Text := ['\n'].intercalate lines

/-- The line of a month. -/
def monthLine (month : Month) : Text :=
  "- [".toList ++ month.text ++ "](".toList ++ month.text ++ ".md)".toList

/-- The months, newest first. -/
def newestFirst (months : List Month) : List Month := sortBy (fun a b => decide (b ≤ a)) months

def renderMonths (months : List Month) : Text := joinLines ((newestFirst months).map monthLine)

/-- `trim_end_matches(['\n', '\r'])`. -/
def trimLineEnd (line : Text) : Text := line.rdropWhile fun c => c = '\n' ∨ c = '\r'

/-- `section`: the text up to the heading line and with it, the body, and the rest. -/
def sectionParts (heading : Text) (raws : List Text) :
    Option (List Text × List Text × List Text) :=
  match raws.dropWhile fun raw => trimLineEnd raw ≠ heading with
  | [] => none
  | line :: rest =>
    some ((raws.takeWhile fun raw => trimLineEnd raw ≠ heading) ++ [line],
      rest.takeWhile fun raw => !sectionMark.isPrefixOf (trimLineEnd raw),
      rest.dropWhile fun raw => !sectionMark.isPrefixOf (trimLineEnd raw))

def replaceSection (index heading rendered : Text) : Text :=
  match sectionParts heading (splitInclusive index) with
  | none => trimEnd index ++ "\n\n".toList ++ heading ++ "\n\n".toList ++ rendered ++ ['\n']
  | some (before, _, after) =>
    let start := before.flatten
    let start := if start.getLast? = some '\n' then start else start ++ ['\n']
    let remainder := after.flatten.dropWhile (· = '\n')
    start ++ '\n' :: rendered ++ '\n' :: (if remainder = [] then [] else '\n' :: remainder)

def pendingMarker : Text := "<!-- devlog-pending-index -->".toList

/-- A pending entry, as the index lists it: its identity is that of a valid fragment. -/
structure PendingEntry where
  date : EntryDate
  slug : Text
  valid : slug ≠ [] ∧ slug.length ≤ 180 ∧
    slug.all fun c => isAsciiLower c || isAsciiDigit c || c = '-'

def PendingEntry.identity (entry : PendingEntry) : Text := entry.date.text ++ '-' :: entry.slug

def PendingEntry.line (entry : PendingEntry) : Text :=
  "- [".toList ++ entry.identity ++ "](pending/".toList ++ entry.identity ++ ".md)".toList

/-- Newest first, and then by slug. -/
def PendingEntry.le (a b : PendingEntry) : Bool :=
  b.date < a.date ∨ a.date = b.date ∧ charsLe a.slug b.slug = true

def renderPending (entries : List PendingEntry) : Text :=
  joinLines ((sortBy PendingEntry.le entries).map PendingEntry.line)

/-- Whether the index gets a pending section. -/
def writesPending (contents pending : Text) : Bool :=
  pending ≠ [] ∨ (linesOf contents).any (· = pendingMarker)

/-- The body of the pending section. -/
def pendingBody (pending : Text) : Text :=
  if pending = [] then pendingMarker else pendingMarker ++ "\n\n".toList ++ pending

def replaceMonthsSection (index : Text) (months : List Month) : Text :=
  replaceSection index monthsHeading (renderMonths months)

def renderIndex (contents : Text) (months : List Month) (pending : Text) : Text :=
  let updated := replaceMonthsSection contents months
  if writesPending contents pending then
    replaceSection updated pendingHeading (pendingBody pending)
  else updated

end NilsCli.Devlog
