import NilsCli.Lib.Framing
import NilsCli.Lib.Guard
import NilsCli.Lib.Text

/-!
# The snapshot of a dirty checkout

`snapshot_once` lists the index, the unstaged and the untracked paths of a checkout and hashes one
sequence of framed fields: who the checkout is, each index entry, with what is in the worktree if
it is a submodule or unstaged, each untracked path with what is there, and the counts.
-/

namespace NilsCli.Worktree

open Lib

/-! ## Bytes -/

abbrev Bytes := List UInt8

variable (raw : Bytes) (byte : UInt8)

/-- A byte string of the source. -/
def ascii (s : String) : Bytes := s.toList.map fun c => UInt8.ofNat c.toNat

/-- What SHA-256 returns. -/
abbrev Digest := { bytes : Bytes // bytes.length = 32 }

def hexDigits : Bytes := ascii "0123456789abcdef"

def hexBytes (bytes : Bytes) : Bytes :=
  bytes.flatMap fun byte => [hexDigits.getD (byte.toNat / 16) 0, hexDigits.getD (byte.toNat % 16) 0]

def isDigit : Bool := ascii "0" ≤ [byte] ∧ [byte] ≤ ascii "9"

def isHexDigit : Bool :=
  isDigit byte ∨ ascii "a" ≤ [byte] ∧ [byte] ≤ ascii "f" ∨ ascii "A" ≤ [byte] ∧ [byte] ≤ ascii "F"

def bytesLe (a b : Bytes) : Bool := a ≤ b

/-! ## What git and the file system report -/

structure Output where
  code : Int
  stdout : Bytes

structure Submodule where
  checked : Except String Unit
  head : Output
  status : Output

/-- What there is at a path of the worktree. -/
inductive Node where
  | missing
  | symlink (target : Bytes)
  | regular (nlink mode : Nat) (content : Bytes)
  | directory (submodule : Submodule)
  | special

structure CheckoutIdentity where
  repositoryKey : Bytes
  checkoutKey : Bytes
  checkoutInstance : Bytes
  repositoryKey_length : repositoryKey.length = 64
  checkoutKey_length : checkoutKey.length = 64
  checkoutInstance_length : checkoutInstance.length = 32

structure Checkout where
  identity : CheckoutIdentity
  /-- `reject_command_bearing_git_config` and `reject_active_git_operation`. -/
  accepted : Except String Unit
  symbolicRef : Output
  revParseHead : Output
  showRef : Output
  lsFilesStage : Output
  lsFilesFlags : Output
  /-- `reject_initialized_submodule_config`. -/
  submodulesAccepted : Except String Unit
  diffCached : Output
  diffNames : Output
  lsFilesOthers : Output
  /-- `reject_special_filesystem_objects`. -/
  objectsAccepted : Except String Unit
  parentWithinRoot : Bytes → Bool
  symlinkStays : Bytes → Bytes → Except String Unit
  node : Bytes → Node

def snapshotGitOutput (output : Output) (limit : Nat) : Except String Output := do
  ensure (output.stdout.length ≤ limit) "Git output exceeds the supported size limit"
  .ok output

def stripSuffix : Bytes :=
  if raw.getLast? = some byte then raw.dropLast else raw

def stripGitLine : Except String Bytes := do
  ensure (0 ∉ raw) "Git output contains an unexpected NUL byte"
  .ok (stripSuffix (stripSuffix raw 10) 13)

/-! ## Listings -/

structure SnapshotBudget where
  pathBytes : Nat
  fileBytes : Nat
  deriving DecidableEq

def maxPathBytes : Nat := 32 * 1024 * 1024

def maxEntryCount : Nat := 100000

def maxGitOutputBytes : Nat := 64 * 1024 * 1024

def SnapshotBudget.chargePath (budget : SnapshotBudget) (bytes : Nat) :
    Except String SnapshotBudget := do
  ensure (budget.pathBytes + bytes < 2 ^ 64) "dirty snapshot path-byte budget overflowed"
  ensure (budget.pathBytes + bytes ≤ maxPathBytes) "dirty snapshot path-byte budget is exceeded"
  .ok { budget with pathBytes := budget.pathBytes + bytes }

def nulPayload : Except String Bytes :=
  if raw = [] then .ok raw
  else do
    ensure (raw.getLast? = some 0) "NUL-delimited Git output is malformed"
    ensure (raw.dropLast ≠ [] ∧ !(raw.dropLast.splitOn 0).any (·.isEmpty))
      "NUL-delimited Git output is malformed"
    .ok raw.dropLast

def validateRepoRelativePath : Except String Unit := do
  ensure (raw ≠ [] ∧ 0 ∉ raw) "Git path is malformed"
  ensure (raw.head? ≠ some 47) "absolute Git paths are unsupported"
  -- `Path::components` drops empty parts and each `.` but the first
  ensure ((raw.splitOn 47).head? ≠ some (ascii ".") ∧ ascii ".." ∉ raw.splitOn 47)
    "Git path escapes the checkout"

/-- The loop of `parse_index_bounded` and `parse_nul_paths_bounded` over the records. -/
def parseRecords {α : Type} (tooMany : String) (parse : Bytes → Except String α) (path : α → Bytes)
    (entryLimit : Nat) :
    List Bytes → List α → SnapshotBudget → Except String (List α × SnapshotBudget)
  | [], entries, budget => .ok (entries, budget)
  | record :: records, entries, budget => do
    ensure (entries.length < entryLimit) tooMany
    let entry ← parse record
    validateRepoRelativePath (path entry)
    let budget ← budget.chargePath (path entry).length
    parseRecords tooMany parse path entryLimit records (entries ++ [entry]) budget

def parseBounded {α : Type} (tooMany : String) (parse : Bytes → Except String α) (path : α → Bytes)
    (raw : Bytes) (entryLimit : Nat) (budget : SnapshotBudget) :
    Except String (List α × SnapshotBudget) := do
  let payload ← nulPayload raw
  if payload = [] then .ok ([], budget)
  else parseRecords tooMany parse path entryLimit (payload.splitOn 0) [] budget

structure IndexEntry where
  mode : Bytes
  oid : Bytes
  path : Bytes
  deriving DecidableEq

def parseIndexRecord (record : Bytes) : Except String IndexEntry := do
  let tab ← orErr (record.findIdx? (· = 9)) "Git index output is malformed"
  match (record.take tab).splitOn 32 with
  | [mode, oid, stage] => do
    ensure (mode.length = 6 ∧ mode.all isDigit) "Git index mode is malformed"
    ensure (40 ≤ oid.length ∧ oid.length ≤ 64 ∧ oid.all isHexDigit)
      "Git index object identity is malformed"
    ensure (¬ oid.all (· = 48)) "intent-to-add index entries are unsupported"
    ensure (stage = ascii "0") "unmerged index stages are unsupported"
    .ok ⟨mode, oid, record.drop (tab + 1)⟩
  | _ => .error "Git index output is malformed"

def parseIndexBounded : Bytes → Nat → SnapshotBudget →
    Except String (List IndexEntry × SnapshotBudget) :=
  parseBounded "dirty snapshot tracked entry count exceeds the supported limit" parseIndexRecord
    IndexEntry.path

def parseNulPathsBounded : Bytes → Nat → SnapshotBudget →
    Except String (List Bytes × SnapshotBudget) :=
  parseBounded "dirty snapshot path entry count exceeds the supported limit" .ok id

/-- The loop of `validate_index_flags` over the records and the entries that are left. -/
def matchFlags : List Bytes → List IndexEntry → SnapshotBudget → Except String SnapshotBudget
  | [], [], budget => .ok budget
  | record :: records, entry :: tracked, budget => do
    ensure (3 ≤ record.length ∧ record[1]? = some 32)
      "Git index flag listing does not match the index"
    validateRepoRelativePath (record.drop 2)
    let budget ← budget.chargePath (record.drop 2).length
    ensure (record[0]? = some 72) "tracked index flags that can hide worktree drift are unsupported"
    ensure (record.drop 2 = entry.path) "Git index flag listing does not match the index"
    matchFlags records tracked budget
  | _, _, _ => .error "Git index flag listing does not match the index"

def validateIndexFlags (tracked : List IndexEntry) (budget : SnapshotBudget) :
    Except String SnapshotBudget := do
  let payload ← nulPayload raw
  if payload = [] then matchFlags [] tracked budget
  else matchFlags (payload.splitOn 0) tracked budget

def ensureUniquePaths (paths : List Bytes) : Except String Unit :=
  ensure paths.Nodup "Git path listing contains duplicate entries"

variable (sha : Bytes → Digest)

variable (checkout : Checkout) (path : Bytes)

/-- `FramedHasher::finish`, of the fields that were hashed. -/
def finish (fields : List Field) : Bytes := hexBytes (sha (framed fields)).val

def unbornHeadIdentity (branchRef : Bytes) : Bytes :=
  ascii "unborn:" ++ finish sha
    [⟨ascii "domain", ascii "agent-runtime.git-head.unborn.v1"⟩, ⟨ascii "symbolic_ref", branchRef⟩]

def validateUnbornHead (showRef : Output) (branchRef : Bytes) : Except String Bytes := do
  ensure ((ascii "refs/heads/").isPrefixOf branchRef)
    "symbolic HEAD does not identify a local branch"
  let output ← snapshotGitOutput showRef 1024
  ensure (output.code = 1)
    "symbolic HEAD is dangling, inaccessible, or does not identify a commit"
  .ok (unbornHeadIdentity sha branchRef)

def readBranch (symbolicRef : Output) : Except String Bytes := do
  let output ← snapshotGitOutput symbolicRef 4096
  if output.code = 0 then stripGitLine output.stdout
  else if output.code = 1 then .ok []
  else .error "Git branch identity is unavailable"

def readHead (branchRaw : Bytes) : Except String Bytes := do
  let output ← snapshotGitOutput checkout.revParseHead 256
  if output.code = 0 then do
    let headRaw ← stripGitLine output.stdout
    ensure (40 ≤ headRaw.length ∧ headRaw.length ≤ 64 ∧ headRaw.all isHexDigit)
      "Git HEAD identity is malformed"
    .ok headRaw
  else if branchRaw ≠ [] then validateUnbornHead sha checkout.showRef branchRaw
  else .error "Git HEAD identity is unavailable"

/-- What `snapshot_once` has read before it hashes, each list in the order of the paths. -/
structure Listing where
  branchRaw : Bytes
  headOid : Bytes
  tracked : List IndexEntry
  unstaged : List Bytes
  untracked : List Bytes
  deriving DecidableEq

/-- The first part of `snapshot_once`. -/
def readListing : Except String (Listing × SnapshotBudget) := do
  checkout.accepted
  let branchRaw ← readBranch checkout.symbolicRef
  let headOid ← readHead sha checkout branchRaw
  let index ← snapshotGitOutput checkout.lsFilesStage maxGitOutputBytes
  ensure (index.code = 0) "Git index listing failed"
  let (tracked, budget) ← parseIndexBounded index.stdout maxEntryCount ⟨0, 0⟩
  let flags ← snapshotGitOutput checkout.lsFilesFlags maxGitOutputBytes
  ensure (flags.code = 0) "Git index flags are unavailable"
  let budget ← validateIndexFlags flags.stdout tracked budget
  checkout.submodulesAccepted
  let staged ← snapshotGitOutput checkout.diffCached 1
  ensure (staged.code = 0 ∨ staged.code = 1) "Git staged-state probe failed"
  let names ← snapshotGitOutput checkout.diffNames maxGitOutputBytes
  ensure (names.code = 0) "Git unstaged-path listing failed"
  let (unstaged, budget) ← parseNulPathsBounded names.stdout maxEntryCount budget
  let others ← snapshotGitOutput checkout.lsFilesOthers maxGitOutputBytes
  ensure (others.code = 0) "Git untracked listing failed"
  let (untracked, budget) ←
    parseNulPathsBounded others.stdout (maxEntryCount - tracked.length) budget
  ensure (staged.code = 1 ∨ unstaged ≠ [] ∨ untracked ≠ []) "checkout is clean"
  let listing : Listing := {
    branchRaw, headOid
    tracked := sortBy (fun left right => bytesLe left.path right.path) tracked
    unstaged := sortBy bytesLe unstaged
    untracked := sortBy bytesLe untracked }
  ensureUniquePaths (listing.tracked.map (·.path))
  ensureUniquePaths listing.unstaged
  ensureUniquePaths listing.untracked
  checkout.objectsAccepted
  ensure (∀ path ∈ listing.unstaged, path ∈ listing.tracked.map (·.path))
    "Git unstaged-path listing does not match the index"
  .ok (listing, budget)

/-! ## Hashing -/

def maxFileBytes : Nat := 1024 * 1024 * 1024

def maxTotalBytes : Nat := 4 * 1024 * 1024 * 1024

def hashSubmodule (indexOid : Bytes) : Node → Except String (List Field)
  | .directory submodule => do
    submodule.checked
    let head ← snapshotGitOutput submodule.head 256
    ensure (head.code = 0) "dirty or unavailable submodules are unsupported"
    let submoduleHead ← stripGitLine head.stdout
    ensure (indexOid = submoduleHead) "dirty or unavailable submodules are unsupported"
    let status ← snapshotGitOutput submodule.status maxGitOutputBytes
    ensure (status.code = 0 ∧ status.stdout = []) "dirty submodules are unsupported"
    .ok [⟨ascii "worktree_kind", ascii "submodule"⟩, ⟨ascii "worktree_digest", submoduleHead⟩]
  | _ => .error "dirty or unavailable submodules are unsupported"

/-- The other branches of `hash_worktree_object`. -/
def hashFile (budget : SnapshotBudget) : Node → Except String (List Field × SnapshotBudget)
  | .missing => .ok ([⟨ascii "worktree_kind", ascii "missing"⟩], budget)
  | .symlink target => do
    checkout.symlinkStays path target
    ensure (target.length ≤ 64 * 1024) "symlink target exceeds the supported limit"
    .ok ([⟨ascii "worktree_kind", ascii "symlink"⟩, ⟨ascii "worktree_digest", (sha target).val⟩],
      budget)
  | .regular nlink mode content => do
    ensure (nlink = 1) "multiply-linked files are unsupported"
    ensure (content.length ≤ maxFileBytes) "file exceeds the dirty snapshot size limit"
    ensure (content.length ≤ maxTotalBytes - budget.fileBytes)
      "dirty snapshot total bytes exceed the supported limit"
    ensure (budget.fileBytes + content.length < 2 ^ 64) "dirty snapshot byte count overflowed"
    ensure (budget.fileBytes + content.length ≤ maxTotalBytes)
      "dirty snapshot total bytes exceed the supported limit"
    .ok ([⟨ascii "worktree_kind", ascii "regular"⟩,
        ⟨ascii "worktree_mode", bigEndian 4 (mode % 0o10000)⟩,
        ⟨ascii "worktree_digest", (sha content).val⟩],
      { budget with fileBytes := budget.fileBytes + content.length })
  | _ => .error "special filesystem objects are unsupported"

def hashWorktreeObject (indexOid : Option Bytes)
    (budget : SnapshotBudget) : Except String (List Field × SnapshotBudget) := do
  ensure (checkout.parentWithinRoot path) "worktree path escapes the checkout"
  match indexOid with
  | some oid => do
    let fields ← hashSubmodule oid (checkout.node path)
    .ok (fields, budget)
  | none => hashFile sha checkout path budget (checkout.node path)

def gitlink : Bytes := ascii "160000"

def hashEntry (unstaged : List Bytes) (entry : IndexEntry)
    (budget : SnapshotBudget) : Except String (List Field × SnapshotBudget) := do
  let index : List Field := [⟨ascii "index_mode", entry.mode⟩, ⟨ascii "index_oid", entry.oid⟩,
    ⟨ascii "index_path", entry.path⟩]
  if entry.mode = gitlink then do
    let (object, budget) ← hashWorktreeObject sha checkout entry.path (some entry.oid) budget
    .ok (index ++ object, budget)
  else if entry.path ∈ unstaged then do
    let (object, budget) ← hashWorktreeObject sha checkout entry.path none budget
    .ok (index ++ ⟨ascii "unstaged_path", entry.path⟩ :: object, budget)
  else .ok (index, budget)

def hashUntracked (budget : SnapshotBudget) : Except String (List Field × SnapshotBudget) := do
  let (object, budget) ← hashWorktreeObject sha checkout path none budget
  .ok (⟨ascii "untracked_path", path⟩ :: object, budget)

def hashEach {α : Type} (hash : α → SnapshotBudget → Except String (List Field × SnapshotBudget)) :
    List α → SnapshotBudget → Except String (List (List Field) × SnapshotBudget)
  | [], budget => .ok ([], budget)
  | a :: as, budget => do
    let (block, budget) ← hash a budget
    let (blocks, budget) ← hashEach hash as budget
    .ok (block :: blocks, budget)

structure DirtySnapshot where
  repositoryKey : Bytes
  checkoutKey : Bytes
  checkoutInstance : Bytes
  snapshotId : Bytes
  headOid : Bytes
  branchRefDigest : Bytes
  trackedEntries : Nat
  untrackedEntries : Nat
  hashedBytes : Nat

def snapshotSchema : Bytes := ascii "agent-runtime.dirty-checkout-snapshot.v1"

def identityFields (identity : CheckoutIdentity) (listing : Listing) : List Field :=
  [⟨ascii "schema", snapshotSchema⟩, ⟨ascii "repository_key", identity.repositoryKey⟩,
    ⟨ascii "checkout_key", identity.checkoutKey⟩,
    ⟨ascii "checkout_instance", identity.checkoutInstance⟩, ⟨ascii "head_oid", listing.headOid⟩,
    ⟨ascii "branch_ref", listing.branchRaw⟩]

def countFields (listing : Listing) (budget : SnapshotBudget) : List Field :=
  [⟨ascii "tracked_count", bigEndian 8 listing.tracked.length⟩,
    ⟨ascii "unstaged_count", bigEndian 8 listing.unstaged.length⟩,
    ⟨ascii "untracked_count", bigEndian 8 listing.untracked.length⟩,
    ⟨ascii "hashed_bytes", bigEndian 8 budget.fileBytes⟩]

def hashCheckout : Except String (Listing × List Field × SnapshotBudget) := do
  let (listing, budget) ← readListing sha checkout
  let (tracked, budget) ← hashEach (hashEntry sha checkout listing.unstaged) listing.tracked budget
  let (untracked, budget) ← hashEach (hashUntracked sha checkout) listing.untracked budget
  .ok (listing, identityFields checkout.identity listing ++ tracked.flatten ++ untracked.flatten ++
    countFields listing budget, budget)

def snapshotOnce : Except String DirtySnapshot := do
  let (listing, fields, budget) ← hashCheckout sha checkout
  .ok {
    repositoryKey := checkout.identity.repositoryKey
    checkoutKey := checkout.identity.checkoutKey
    checkoutInstance := checkout.identity.checkoutInstance
    snapshotId := finish sha fields
    headOid := listing.headOid
    branchRefDigest := hexBytes (sha listing.branchRaw).val
    trackedEntries := listing.tracked.length
    untrackedEntries := listing.untracked.length
    hashedBytes := budget.fileBytes }

end NilsCli.Worktree
