import NilsCli.Lib.Guard
import NilsCli.Lib.Table
import NilsCli.Lib.Text

/-!
# The evidence archive

`migrate` writes a directory for each record of a source tree: its rollup, a sidecar, and copies of
the files that the record links.
-/

namespace NilsCli.Evidence

open Lib

abbrev Path := List String

abbrev Bytes := List UInt8

def rollupFile : String := "skill-usage.rollup.json"

/-! ## Data -/

structure LinkedRecord where
  recordType : String
  path : String

structure Rollup (Fields : Type) where
  id : String
  linkedEvidence : List (String × String)
  sourceDigest : String
  fields : Fields

structure SourceRecord (Fields : Type) where
  raw : Bytes
  startedAt : String
  skill : String
  host : String
  org : String
  repo : String
  linkedRecords : List LinkedRecord
  /-- What `resolve_child_source` finds for a link, read. -/
  child : String → Option Bytes
  fields : Fields
  metadata : Bytes
  scrubLog : Option Bytes

structure StagedChild where
  typeSlug : String
  name : String
  bytes : Bytes
  deriving DecidableEq

structure PreparedRecord (Fields : Type) where
  rollup : Rollup Fields
  target : Path
  childFiles : List StagedChild
  metadata : Bytes
  scrubLog : Option Bytes

structure CatalogRecord where
  archivePath : Path
  sourceDigest : String

structure Archive where
  files : Table Path Bytes
  catalog : Option (List CatalogRecord)
  recorded : List (String × Path)

/-- What stops a step. The texts of the last two come from the system and the parser. -/
inductive StepError where
  | targetExists
  | unsafeHost
  | io
  | catalog

/-- What is taken from elsewhere. -/
structure Host (Fields : Type) where
  sha256Hex : Bytes → String
  /-- `nils_scrub::scrub_text`. -/
  scrubText : String → String
  /-- The scrubbed text of a file, or the bytes of one that is no text. -/
  scrubBytes : Bytes → Bytes
  encodeBasicStamp : String → String
  skillSlug : String → String
  rollupText : Rollup Fields → Bytes
  /-- A rollup as the catalog reads it: its `source_digest`, if it has one. -/
  parseRollup : Bytes → Option (Option String)

def Host.ReadsBack {Fields : Type} (host : Host Fields) : Prop :=
  ∀ rollup, host.parseRollup (host.rollupText rollup) = some (some rollup.sourceDigest)

/-! ## Names -/

/-- `trim_matches('-')`. -/
def trimDashes (chars : List Char) : List Char :=
  ((chars.dropWhile (· = '-')).reverse.dropWhile (· = '-')).reverse

def sanitizePathSegment (input fallback : String) : String :=
  let out := input.toList.map fun c =>
    if isAsciiLower c || isAsciiUpper c || isAsciiDigit c || c = '.' || c = '_' || c = '-' then c
    else '-'
  let trimmed := String.ofList (trimDashes out)
  if trimmed = "" ∨ trimmed = "." ∨ trimmed = ".." then fallback else trimmed

def childBasename (path : String) : String :=
  let trimmed := (path.toList.reverse.dropWhile (· = '/')).reverse
  let last := String.ofList (trimmed.reverse.takeWhile fun c => c ≠ '/' ∧ c ≠ '\\').reverse
  if last = "" then "evidence" else last

/-- The name with an index before its extension. -/
def indexed (childName : String) (n : Nat) : String :=
  let chars := childName.toList
  let ext := (chars.reverse.takeWhile (· ≠ '.')).reverse
  let stem := chars.take (chars.length - ext.length - 1)
  if '.' ∈ chars ∧ stem ≠ [] then
    String.ofList stem ++ "-" ++ toString n ++ "." ++ String.ofList ext
  else childName ++ "-" ++ toString n

/-- `unique_rel`: the first name that is not in use; there are more candidates than names. -/
def uniqueName (used : List (String × String)) (typeSlug childName : String) : String :=
  let candidates := childName :: (List.range (used.length + 1)).map fun n => indexed childName (n + 1)
  (candidates.find? fun name => (typeSlug, name) ∉ used).getD childName

def archiveTargetPath (host orgOrGroupPath repo id : String) : Path :=
  "evidence" :: sanitizePathSegment host "unknown-host" ::
    ((splitAt orgOrGroupPath '/').filter (· ≠ "")).map (sanitizePathSegment · "unknown-org") ++
    [sanitizePathSegment repo "unknown-repo", id]

section
variable {Fields : Type} (host : Host Fields)

variable (archive : Archive) (files : Table Path Bytes)

def rollupId (startedAt skill sourceDigest : String) : String :=
  let hex := (stripPrefix? sourceDigest "sha256:").getD sourceDigest.toList
  host.encodeBasicStamp startedAt ++ "-" ++ host.skillSlug skill ++ "-" ++ String.ofList (hex.take 8)

/-! ## Preparing -/

def placeLinks : List (String × String) → List LinkedRecord → List (LinkedRecord × String × String)
  | _, [] => []
  | used, link :: links =>
    let typeSlug := sanitizePathSegment (host.scrubText link.recordType) "evidence"
    let childName := sanitizePathSegment (childBasename (host.scrubText link.path)) "evidence"
    let name := uniqueName used typeSlug childName
    (link, typeSlug, name) :: placeLinks ((typeSlug, name) :: used) links

/-- The order of the links: by type, then by path. -/
def pairLe (a b : String × String) : Bool := if a.1 = b.1 then textLe a.2 b.2 else textLe a.1 b.1

def linkLe (a b : LinkedRecord) : Bool := pairLe (a.recordType, a.path) (b.recordType, b.path)

def buildPrepared (record : SourceRecord Fields) : PreparedRecord Fields :=
  let sourceDigest := "sha256:" ++ host.sha256Hex record.raw
  let id := rollupId host record.startedAt record.skill sourceDigest
  let placed := placeLinks host [] (sortBy linkLe record.linkedRecords)
  { rollup := {
      id := id
      linkedEvidence := sortBy pairLe (placed.map fun p =>
        (host.scrubText p.1.recordType, p.2.1 ++ "/" ++ p.2.2))
      sourceDigest := sourceDigest
      fields := record.fields }
    target := archiveTargetPath record.host record.org record.repo id
    childFiles := placed.filterMap fun p => (record.child p.1.path).map fun bytes =>
      ⟨p.2.1, p.2.2, host.scrubBytes bytes⟩
    metadata := record.metadata
    scrubLog := record.scrubLog }

def existingSourceDigests : List String :=
  (archive.catalog.getD []).map (·.sourceDigest)

def prepare (sources : List (SourceRecord Fields)) : List (PreparedRecord Fields) :=
  (sources.filter fun record =>
    ("sha256:" ++ host.sha256Hex record.raw) ∉ existingSourceDigests archive).map
      (buildPrepared host)

/-! ## The catalog -/

def rollups : List (Path × Bytes) :=
  (files.entries.map fun row => (row.1, row.2)).filter fun row =>
    row.1.head? = some "evidence" ∧ row.1.getLast? = some rollupFile

def recordFromRollup (row : Path × Bytes) : Except StepError CatalogRecord :=
  match host.parseRollup row.2 with
  | some digest => .ok ⟨row.1, digest.getD ""⟩
  | none => .error .catalog

def buildDocument : Except StepError (List CatalogRecord) :=
  (rollups files).mapM (recordFromRollup host)

/-! ## Steps -/

def pathExists (path : Path) : Bool :=
  files.entries.any fun row => path.isPrefixOf row.1

/-- `create_dir_all` of the directories above a file, and `fs::write`: a file is no directory, and a
directory no file. -/
def writeFile (path : Path) (bytes : Bytes) : Except StepError (Table Path Bytes) := do
  ensure (∀ row ∈ files.entries, row.1 = path ∨ ¬ row.1 <+: path ∧ ¬ path <+: row.1) .io
  .ok (files.insert path bytes)

def recordFiles (record : PreparedRecord Fields) : List (Path × Bytes) :=
  (record.target ++ [rollupFile], host.rollupText record.rollup) ::
    (record.target ++ ["metadata.yaml"], record.metadata) ::
    record.childFiles.map (fun child => (record.target ++ [child.typeSlug, child.name], child.bytes)) ++
    record.scrubLog.toList.map fun log => (record.target ++ [record.rollup.id ++ ".scrub.log"], log)

def writeFiles (rows : List (Path × Bytes)) : Except StepError (Table Path Bytes) :=
  rows.foldlM (fun files row => writeFile files row.1 row.2) files

def apply (records : List (PreparedRecord Fields)) : Except StepError Archive :=
  if records = [] then .ok archive
  else do
    ensure (∀ record ∈ records, ¬ pathExists archive.files record.target) .targetExists
    let files ← records.foldlM (fun files record => writeFiles files (recordFiles host record))
      archive.files
    let catalog ← buildDocument host files
    .ok {
      files := files
      catalog := some catalog
      recorded := archive.recorded ++
        records.map fun record => (record.rollup.sourceDigest, record.target) }

/-- `ensure_plain_host_label`. -/
def plainHostLabel (host : String) : Bool :=
  !host.toList.contains '/' && !host.toList.contains '\\' && host ≠ "" && host ≠ "." && host ≠ ".."

/-- The path is in the tree of one of the hosts. -/
def inScope (hosts : List String) (path : Path) : Bool :=
  hosts.any fun host => ["evidence", host].isPrefixOf path

/-- `purge --apply`. -/
def purge (hosts : List String) : Except StepError Archive := do
  ensure (hosts.all plainHostLabel) .unsafeHost
  if ¬ archive.files.entries.any (fun row => inScope hosts row.1) then .ok archive
  else do
    let files := archive.files.filter fun path _ => !inScope hosts path
    let catalog ← buildDocument host files
    .ok {
      files := files
      catalog := some catalog
      recorded := archive.recorded.filter fun entry => !inScope hosts entry.2 }

inductive Step (Fields : Type)
  | migrate (sources : List (SourceRecord Fields))
  | purge (hosts : List String)
  | catalog

/-- A step that succeeds. -/
def next (archive : Archive) : Step Fields → Except StepError Archive
  | .migrate sources => apply host archive (prepare host archive sources)
  | .purge hosts => purge host archive hosts
  | .catalog => do
    let catalog ← buildDocument host archive.files
    .ok { archive with catalog := some catalog }

end

end NilsCli.Evidence
