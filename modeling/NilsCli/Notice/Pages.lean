import Mathlib.Data.List.Chain
import Mathlib.Data.String.Basic
import NilsCli.Lib.Durable
import NilsCli.Lib.JsonSize
import NilsCli.Lib.SortedRows

/-!
# The pages of the notice checkpoint

A file that only grows holds the pages of a search tree. A page is a leaf with rows or a branch with
the last key and the place of each child; a child is named by its place and its hash, so a root
names a whole tree.
-/

namespace NilsCli.Notice

open Lib List

def pageBytes : Nat := 16 * 1024

def fanout : Nat := 48

def maxDepth : Nat := 32

/-- No file is longer. -/
def maxFileBytes : Nat := 2 ^ 63 - 1

inductive PageError
  | invalid
  | unexpectedEof
  | json
  | fileTooLarge
  | merge (message : String)
deriving DecidableEq

abbrev Row : Type := String × String

structure Page where
  offset : Nat
  bytes : Nat
  sha256 : String
deriving DecidableEq

structure Child where
  last : String
  page : Page

inductive Node
  | leaf (rows : List Row)
  | branch (children : List Child)

namespace Node

def keys : Node → List String
  | leaf rows => rows.map (·.1)
  | branch children => children.map (·.last)

def last (node : Node) : Option String := node.keys.getLast?

def keyValid (key : String) : Bool := key ≠ "" && utf8Size key.toList ≤ 128

def valid (node : Node) : Bool :=
  node.keys ≠ [] && node.keys.length ≤ fanout && node.keys.all keyValid &&
    decide (node.keys.IsChain (· < ·))

end Node

/-! ## Text -/

def Page.json (page : Page) : List Char :=
  jsonObject [("offset", jsonNat page.offset), ("bytes", jsonNat page.bytes),
    ("sha256", jsonString page.sha256)]

def Child.json (child : Child) : List Char :=
  jsonObject [("last", jsonString child.last), ("page", child.page.json)]

def rowJson (row : Row) : List Char := jsonArray [jsonString row.1, jsonString row.2]

def Node.json : Node → List Char
  | leaf rows => jsonObject [("Leaf", jsonArray (rows.map rowJson))]
  | branch children => jsonObject [("Branch", jsonArray (children.map Child.json))]

def Node.toVec (node : Node) : List UInt8 := utf8Bytes node.json

def hashValid (hash : String) : Bool :=
  utf8Size hash.toList = 64 && hash.toList.all fun c => isAsciiDigit c || charIn 'a' 'f' c

structure Codec where
  fromSlice : List UInt8 → Option Node
  sha256 : List UInt8 → String
  fromSlice_toVec : ∀ node : Node, fromSlice node.toVec = some node
  hashValid_sha256 : ∀ bytes, hashValid (sha256 bytes) = true

/-! ## Reading -/

structure Index where
  file : List UInt8
  root : Option Page
  committed : Nat

namespace Index

def create : Index := ⟨[], none, 0⟩

def read (codec : Codec) (index : Index) (child : Child) (depth : Nat) : Except PageError Node := do
  let page := child.page
  ensure (depth < maxDepth ∧ page.bytes ≠ 0 ∧ page.bytes ≤ pageBytes ∧
    page.offset + page.bytes < 2 ^ 64 ∧ page.offset + page.bytes ≤ index.committed ∧
    hashValid page.sha256) .invalid
  let bytes := (index.file.drop page.offset).take page.bytes
  ensure (bytes.length = page.bytes) .unexpectedEof
  ensure (codec.sha256 bytes = page.sha256) .invalid
  let node ← orErr (codec.fromSlice bytes) .json
  ensure (node.valid ∧ (child.last = "" ∨ node.last = some child.last)) .invalid
  return node

def rootChild (index : Index) : Option Child := index.root.map fun page => ⟨"", page⟩

def getFrom (codec : Codec) (index : Index) (key : String) :
    Nat → Child → Except PageError (Option String)
  | 0, _ => .error .invalid
  | remaining + 1, child => do
    match ← index.read codec child (maxDepth - (remaining + 1)) with
    | .leaf rows => return findRow key rows
    | .branch children =>
      match children.find? (key ≤ ·.last) with
      | none => return none
      | some next => getFrom codec index key remaining next

def get (codec : Codec) (index : Index) (key : String) : Except PageError (Option String) :=
  match index.rootChild with
  | none => .ok none
  | some child => index.getFrom codec key maxDepth child

/-- The rows of a leaf, whose keys must be new. -/
def insertNew : List Row → SortedMap String String → Except PageError (SortedMap String String)
  | [], entries => .ok entries
  | row :: rows, entries =>
    match entries.find? row.1 with
    | some _ => .error .invalid
    | none => insertNew rows (entries.insert row.1 row.2)

theorem read_ok {codec : Codec} {index : Index} {child : Child} {depth : Nat} {node : Node}
    (h : index.read codec child depth = .ok node) : depth < maxDepth ∧ node.valid = true := by
  unfold read at h
  simp only [ensure_bind_ok, orErr_bind_ok] at h
  obtain ⟨⟨hdepth, -⟩, -, -, node', -, ⟨hvalid, -⟩, h⟩ := h
  cases h
  exact ⟨hdepth, hvalid⟩

theorem length_le_of_valid {children : List Child} (h : (Node.branch children).valid = true) :
    children.length ≤ fanout := by
  unfold Node.valid at h
  simp only [Bool.and_eq_true, decide_eq_true_eq] at h
  simpa [Node.keys] using h.1.1.2

def pendingSize (pending : List (Child × Nat)) : Nat :=
  (pending.map fun entry => (fanout + 1) ^ (maxDepth + 1 - entry.2)).sum

def allFrom (codec : Codec) (index : Index) (pending : List (Child × Nat))
    (entries : SortedMap String String) : Except PageError (SortedMap String String) :=
  match pending with
  | [] => .ok entries
  | (child, depth) :: pending =>
    match _h : index.read codec child depth with
    | .error e => .error e
    | .ok (.leaf rows) =>
      match insertNew rows entries with
      | .error e => .error e
      | .ok entries => allFrom codec index pending entries
    | .ok (.branch children) =>
      allFrom codec index ((children.map fun child => (child, depth + 1)).reverse ++ pending) entries
termination_by pendingSize pending
decreasing_by
  · simp [pendingSize]
  · obtain ⟨hdepth, hvalid⟩ := read_ok _h
    have hlength := length_le_of_valid hvalid
    have hpow : (fanout + 1) ^ (maxDepth + 1 - depth) =
        (fanout + 1) ^ (maxDepth + 1 - (depth + 1)) * (fanout + 1) := by
      rw [← Nat.pow_succ]
      congr 1
      omega
    have hpos : 0 < (fanout + 1) ^ (maxDepth + 1 - (depth + 1)) := Nat.pow_pos (by decide)
    have hmul := Nat.mul_le_mul_left ((fanout + 1) ^ (maxDepth + 1 - (depth + 1))) hlength
    simp only [pendingSize, List.map_append, List.sum_append, List.map_reverse, List.sum_reverse,
      List.map_map, Function.comp_def, List.map_const', List.sum_replicate_nat,
      List.map_cons, List.sum_cons, hpow, Nat.mul_add]
    rw [Nat.mul_comm children.length]
    omega

def all (codec : Codec) (index : Index) : Except PageError (SortedMap String String) :=
  allFrom codec index (index.rootChild.toList.map fun child => (child, 0)) .empty

end Index

/-! ## Writing -/

abbrev Call : Type → Type := Durable Index PageError

def writeAll : List UInt8 → Call Unit
  | [] => pure ()
  | byte :: bytes => do
    Durable.write fun index => { index with file := index.file ++ [byte] }
    writeAll bytes

def write (codec : Codec) (node : Node) : Call Child := do
  let last ← .lift (orErr node.last .invalid)
  let bytes := node.toVec
  .lift (ensure (bytes.length ≤ pageBytes ∧ node.valid) .invalid)
  let index ← .load
  let offset := index.file.length
  .lift (ensure (offset + bytes.length ≤ maxFileBytes) .fileTooLarge)
  writeAll bytes
  .write fun index => { index with committed := offset + bytes.length }
  return ⟨last, offset, bytes.length, codec.sha256 bytes⟩

def Node.halves : Node → Option (Node × Node)
  | leaf rows =>
    if 1 < rows.length then
      some (leaf (rows.take (rows.length / 2)), leaf (rows.drop (rows.length / 2)))
    else none
  | branch children =>
    if 1 < children.length then
      some (branch (children.take (children.length / 2)),
        branch (children.drop (children.length / 2)))
    else none

theorem Node.halves_length {node left right : Node} (h : node.halves = some (left, right)) :
    left.keys.length < node.keys.length ∧ right.keys.length < node.keys.length := by
  cases node with
  | leaf rows =>
    simp only [halves, Option.ite_none_right_eq_some, Option.some.injEq, Prod.mk.injEq] at h
    obtain ⟨hlength, rfl, rfl⟩ := h
    simp only [keys, length_map, length_take, length_drop]
    omega
  | branch children =>
    simp only [halves, Option.ite_none_right_eq_some, Option.some.injEq, Prod.mk.injEq] at h
    obtain ⟨hlength, rfl, rfl⟩ := h
    simp only [keys, length_map, length_take, length_drop]
    omega

def splitWrite (codec : Codec) (node : Node) : Call (List Child) :=
  if node.valid ∧ node.toVec.length ≤ pageBytes then do
    let child ← write codec node
    return [child]
  else
    match _h : node.halves with
    | none => .lift (.error .invalid)
    | some (left, right) => do
      let first ← splitWrite codec left
      let second ← splitWrite codec right
      return first ++ second
termination_by node.keys.length
decreasing_by
  · exact (Node.halves_length _h).1
  · exact (Node.halves_length _h).2

abbrev Merge : Type := String → String → String → Except PageError String

/-- The value of a key that is added. -/
def merged (merge : Merge) (key : String) (old : Option String) (value : String) :
    Except PageError String :=
  match old with
  | some old => merge key old value
  | none => .ok value

def applyGroup (applyChild : Child → List Row → Call (List Child)) (child : Child)
    (group : List Row) : Call (List Child) :=
  if group = [] then pure [child] else applyChild child group

/-- The loop of `apply_page` over the children of a branch. -/
def updateChildren (applyChild : Child → List Row → Call (List Child)) :
    List Child → List Row → Call (List Child)
  | [], _ => pure []
  | child :: children, additions => do
    let group := if children = [] then additions else additions.takeWhile (·.1 ≤ child.last)
    let later := if children = [] then [] else additions.dropWhile (·.1 ≤ child.last)
    let updated ← applyGroup applyChild child group
    let rest ← updateChildren applyChild children later
    return updated ++ rest

/-- The depth is counted down from `maxDepth`. -/
def applyPage (codec : Codec) (merge : Merge) : Nat → Child → List Row → Call (List Child)
  | 0, _, _ => .lift (.error .invalid)
  | remaining + 1, child, additions => do
    let index ← .load
    let node ← .lift (index.read codec child (maxDepth - (remaining + 1)))
    match node with
    | .leaf before => do
      let rows ← .lift (SortedMap.upsertAll (merged merge) additions (.ofRows before))
      if rows.rows = before then
        let last ← .lift (orErr rows.rows.getLast? .invalid)
        return [⟨last.1, child.page⟩]
      else
        splitWrite codec (.leaf rows.rows)
    | .branch children => do
      let updated ← updateChildren (applyPage codec merge remaining) children additions
      splitWrite codec (.branch updated)

def chunks {α : Type} (size : Nat) (hsize : 0 < size) (xs : List α) : List (List α) :=
  if _hxs : xs = [] then [] else xs.take size :: chunks size hsize (xs.drop size)
termination_by xs.length
decreasing_by
  have hpos := List.length_pos_iff.mpr _hxs
  simp only [List.length_drop]
  omega

theorem length_chunks_le {α : Type} {size : Nat} (hsize : 0 < size) (xs : List α) :
    (chunks size hsize xs).length * size < xs.length + size := by
  induction hn : xs.length using Nat.strongRecOn generalizing xs with
  | ind n ih =>
    unfold chunks
    split
    · simpa using Nat.lt_of_lt_of_le hsize (Nat.le_add_left _ _)
    · rename_i hxs
      have hpos := List.length_pos_iff.mpr hxs
      have hdrop := ih (xs.drop size).length (by simp only [length_drop]; omega) _ rfl
      rw [length_cons, Nat.add_mul, Nat.one_mul]
      rw [length_drop] at hdrop
      by_cases hle : size ≤ xs.length
      · omega
      · have hzero : xs.length - size = 0 := by omega
        have hnil : xs.drop size = [] := drop_eq_nil_of_le (by omega)
        rw [hnil]
        unfold chunks
        simp
        omega

theorem length_chunks_lt {α : Type} {xs : List α} (h : 1 < xs.length) :
    (chunks fanout (by decide) xs).length < xs.length := by
  have hle := length_chunks_le (show 0 < fanout by decide) xs
  unfold fanout at hle ⊢
  omega

/-- A branch for each group of children. -/
def writeParents (codec : Codec) : (groups : List (List Child)) →
    Call { parents : List Child // parents.length = groups.length }
  | [] => pure ⟨[], rfl⟩
  | group :: groups => do
    let parent ← write codec (.branch group)
    let ⟨parents, h⟩ ← writeParents codec groups
    return ⟨parent :: parents, congrArg (· + 1) h⟩

def raise (codec : Codec) (limit : Nat) (hlimit : 0 < limit) (children : List Child) :
    Call (List Child) :=
  if limit < children.length then do
    let parents ← writeParents codec (chunks fanout (by decide) children)
    raise codec limit hlimit parents.1
  else pure children
termination_by children.length
decreasing_by
  rw [parents.2]
  exact length_chunks_lt (by omega)

def buildLeaves (codec : Codec) : List Row → List Row → Nat → List Child → Call (List Child)
  | [], rows, _, leaves =>
    if rows = [] then pure leaves
    else do
      let leaf ← write codec (.leaf rows)
      return leaves ++ [leaf]
  | row :: entries, rows, bytes, leaves =>
    let size := (utf8Bytes (rowJson row)).length
    if rows ≠ [] ∧ (rows.length = fanout ∨ pageBytes - 128 < bytes + size) then do
      let leaf ← write codec (.leaf rows)
      buildLeaves codec entries [row] (size + 1) (leaves ++ [leaf])
    else buildLeaves codec entries (rows ++ [row]) (bytes + size + 1) leaves

def build (codec : Codec) (entries : SortedMap String String) : Call Unit := do
  let leaves ← buildLeaves codec entries.rows [] 0 []
  let leaves ← raise codec 1 (by decide) leaves
  .write fun index => { index with root := leaves.getLast?.map (·.page) }

def apply (codec : Codec) (additions : SortedMap String String) (merge : Merge) : Call Unit := do
  if additions.rows = [] then return ()
  let index ← .load
  match index.rootChild with
  | none => build codec additions
  | some root => do
    let children ← applyPage codec merge maxDepth root additions.rows
    let children ← raise codec fanout (by decide) children
    match children with
    | [child] => .write fun index => { index with root := some child.page }
    | children => do
      let child ← write codec (.branch children)
      .write fun index => { index with root := some child.page }

end NilsCli.Notice
