import NilsCli.Lib.Reach
import NilsCli.Lib.Text

/-!
# Rows of the program tracker and their findings

A tracker body has a phase table. Its rows name an issue and the rows they depend on; `row_findings`
reports row lines that do not match the grammar, ids that are used twice, dependencies that name no
other row, and cycles.
-/

namespace NilsCli.Tracker

open Lib

variable (ids : List (String × Nat))

def maxRows : Nat := 500

structure IssueRef where
  owner : Option String
  repo : Option String
  number : Nat

/-- One phase-table row. -/
structure Row where
  id : String
  title : String
  /-- `none` for a gate. -/
  reference : Option IssueRef
  notes : Option String
  after : List String
  done : Bool
  phase : Option String
  /-- 1-based line number in the body. -/
  line : Nat

inductive FindingCode where
  | malformedRow
  | duplicateId
  | unknownDependency
  | selfDependency
  | cycle
  | staleGraph
  | tooManyRows
  deriving DecidableEq

structure Finding where
  code : FindingCode
  line : Option Nat
  ids : List String

structure Table where
  rows : List Row
  malformed : List Nat

variable (table : Table)

/-! ## Ids -/

def indexOf (id : String) : Option Nat :=
  ids.findIdx? fun entry => entry.1 = id

def collectIds (ids : List (String × Nat)) : List Row → List (String × Nat) × List Finding
  | [] => (ids, [])
  | row :: rows =>
    if (indexOf ids row.id).isSome then
      let (ids, findings) := collectIds ids rows
      (ids, ⟨.duplicateId, some row.line, [row.id]⟩ :: findings)
    else collectIds (ids ++ [(row.id, row.line)]) rows

/-- The distinct ids of a table. -/
def tableIds : List (String × Nat) := (collectIds [] table.rows).1

/-- The order of `Option<usize>`. -/
def lineLe (a b : Finding) : Bool :=
  match a.line, b.line with
  | none, _ => true
  | some _, none => false
  | some m, some n => m ≤ n

def lineFindings : List Finding :=
  sortBy lineLe
    (table.malformed.map (fun line => ⟨.malformedRow, some line, []⟩) ++
      (collectIds [] table.rows).2)

/-! ## Dependencies -/

def dependencyFinding (row : Row) (dependency : String) : Option Finding :=
  if dependency = row.id then some ⟨.selfDependency, some row.line, [row.id]⟩
  else if (indexOf ids dependency).isSome then none
  else some ⟨.unknownDependency, some row.line, [row.id, dependency]⟩

def dependencyFindings : List Finding :=
  table.rows.flatMap fun row => row.after.filterMap (dependencyFinding (tableIds table) row)

/-- `dependents[prerequisite]`: every id that depends on it, in the order of the pushes. -/
def dependents (prerequisite : Nat) : List Nat :=
  table.rows.flatMap fun row => row.after.filterMap fun dependency =>
    if dependency ≠ row.id ∧ indexOf (tableIds table) dependency = some prerequisite then
      indexOf (tableIds table) row.id
    else none

/-- `reach[start][other]`. -/
def reach (start other : Nat) : Bool :=
  (reached (dependents table) (tableIds table).length start)[other]? = some true

/-- The ids that `first` is grouped with. -/
def together (first other : Nat) : Bool :=
  other = first || (reach table first other && reach table other first)

def cycleFinding (group : List Nat) : Finding where
  code := .cycle
  line := group.head?.bind fun first => ids[first]?.map (·.2)
  ids := group.filterMap fun member => ids[member]?.map (·.1)

/-- The loop over the distinct ids. -/
def cycleFindings : List Finding :=
  let count := (tableIds table).length
  (groupsFrom (together table) count [] (List.range count)).map (cycleFinding (tableIds table))

/-- Every finding but `stale-graph`. -/
def rowFindings : List Finding :=
  if table.rows.length + table.malformed.length > maxRows then [⟨.tooManyRows, none, []⟩]
  else lineFindings table ++ dependencyFindings table ++ cycleFindings table

end NilsCli.Tracker
