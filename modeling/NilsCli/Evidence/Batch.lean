import Mathlib.Data.List.Infix
import NilsCli.Evidence.Removal
import NilsCli.Lib.RawLines

/-!
# Preparing a batch

`prepare` decides on each record by itself: the rescue index that the records share is the same whoever
builds it (`prepareFrom_eq`).
-/

namespace NilsCli.Evidence

open Lib List

variable {n start stop : Nat} {c : Char} {α β : Type}

variable {text : List Char}

/-! ## Timestamps -/

/-- A slice at bytes; none is a panic. -/
def sliceBytes (text : List Char) (start stop : Nat) : Option (List Char) :=
  (cutBytes text stop).bind fun parts => (cutBytes parts.1 start).map (·.2)

/-- `bytes[n] == c` for an ASCII `c`: such a byte is a character of its own. -/
def byteIs (text : List Char) (n : Nat) (c : Char) : Bool :=
  (cutBytes text n).any fun parts => parts.2.head? = some c

def stampGroups : List (Nat × Nat) := [(0, 4), (5, 7), (8, 10), (11, 13), (14, 16), (17, 19)]

/-- The groups are digits; the first one that is not ends the test. -/
def allDigits (text : List Char) : List (Nat × Nat) → Option Bool
  | [] => some true
  | (start, stop) :: groups =>
    (sliceBytes text start stop).bind fun group =>
      if group.all isAsciiDigit then allDigits text groups else some false

def separated (text : List Char) : Bool :=
  19 ≤ byteLen text && byteIs text 4 '-' && byteIs text 7 '-' && byteIs text 10 'T' &&
    byteIs text 13 ':' &&
    byteIs text 16 ':'

def encodeBasicStamp (rfc3339 : String) : Option String :=
  let text := rfc3339.toList
  let fallback := String.ofList (text.map fun c =>
    if isAsciiLower c || isAsciiUpper c || isAsciiDigit c then c else '-')
  if separated text then
    (allDigits text stampGroups).bind fun digits =>
      if digits then
        (stampGroups.mapM fun group => sliceBytes text group.1 group.2).map fun groups =>
          String.ofList ((groups.take 3).flatten ++ 'T' :: (groups.drop 3).flatten ++ ['Z'])
      else some fallback
  else some fallback

/-- A timestamp up to its minutes; a character reaches across the end of the seconds. -/
def BadStamp (text : List Char) : Prop :=
  separated text = true ∧ allDigits text (stampGroups.take 5) = some true ∧ cutBytes text 19 = none

/-! ## Records -/

structure Owner where
  kind : String
  id : String

structure SkillUsageRecord where
  schema : String
  skill : Option String
  owner : Option Owner
  startedAt : String
  cwd : String
  linkedRecords : List LinkedRecord

structure RepoIdentity where
  host : String
  org : String
  repo : String

inductive RescueSlot
  | unique (identity : RepoIdentity)
  | ambiguous

/-- `Unresolvable`, or another identity error with its text. -/
inductive IdentityError
  | unresolvable
  | other (text : String)

structure Filters where
  repo : Option String
  skill : Option String
  since : Option String
  until_ : Option String
  promotionOnly : Bool
  host : Option String

structure Env (Fields : Type) where
  peekSchema : Bytes → Except String String
  fromJsonBytes : Bytes → Except String SkillUsageRecord
  digests : List String
  hosts : List String
  filters : Filters
  identityFromCwd : String → Option RepoIdentity
  /-- `project_slug_from_owner_repo` of an owner and a repository. -/
  projectSlug : String → String → Option String
  /-- `build_rescue_index`. -/
  rescueIndex : String → Option RescueSlot
  host : Host Fields
  /-- What `resolve_child_source` finds for a link of the record at a path, read. -/
  child : Path → String → Option Bytes
  /-- The rest of the rollup, the sidecar and the log. -/
  fieldsOf : SkillUsageRecord → Fields
  metadataOf : SkillUsageRecord → Path → Bytes
  scrubLogOf : SkillUsageRecord → Option Bytes
  scrubSkill : String → String

/-- A record file, by its path below the source tree, and what reading it gives. -/
structure RecordFile where
  path : Path
  raw : Except String Bytes

inductive Entry (Fields : Type)
  | prepared (record : PreparedRecord Fields)
  | already (digest : String)
  | blocked (reason : String)
  | filtered

inductive EntryKind
  | prepared
  | already
  | blocked
  | filtered
  deriving DecidableEq

section
variable {Fields : Type}

def Entry.kind : Entry Fields → EntryKind
  | .prepared _ => .prepared
  | .already _ => .already
  | .blocked _ => .blocked
  | .filtered => .filtered

def normalizedOwner (record : SkillUsageRecord) : Except String Owner :=
  if record.schema = "skill-usage.record.v1" then
    match record.skill.filter fun skill => !skill.toList.all isWhitespace with
    | some skill => .ok ⟨"skill", skill⟩
    | none => .error "v1 record is missing skill ownership"
  else if record.schema = "skill-usage.record.v2" then
    match record.owner.filter fun owner => (owner.kind = "skill" ∨ owner.kind = "workflow" ∨
        owner.kind = "intent") ∧ !owner.id.toList.all isWhitespace with
    | some owner => .ok owner
    | none => .error "v2 record has invalid owner ownership"
  else .error ("unsupported source schema `" ++ record.schema ++ "`")

/-- `split_owner_repo`. -/
def splitOwnerRepo (slug : String) : Option (String × String) :=
  ((splitSlug slug.toList).filter fun parts => parts.1 ≠ [] ∧ parts.2 ≠ []).map fun parts =>
    (String.ofList parts.1, String.ofList parts.2)

def cwdIdentityMatchesSlug (env : Env Fields) (identity : RepoIdentity)
    (projectDir : String) : Bool :=
  match splitOwnerRepo projectDir with
  | none => true
  | some (owner, repo) =>
    if env.projectSlug owner repo = some projectDir then
      env.projectSlug identity.org identity.repo = some projectDir
    else toAsciiLowercase identity.org = toAsciiLowercase owner &&
      toAsciiLowercase identity.repo = toAsciiLowercase repo

def deriveRepoIdentity (env : Env Fields) (projectDir cwd : String) :
    Except IdentityError RepoIdentity :=
  let trusted := (env.identityFromCwd cwd).filter fun identity =>
    cwdIdentityMatchesSlug env identity projectDir
  match env.filters.host with
  | some host =>
    match env.identityFromCwd cwd, trusted, splitOwnerRepo projectDir with
    | some _, some identity, _ => .ok identity
    | some _, none, _ => .error .unresolvable
    | none, _, none => .error (.other ("--host `" ++ host ++
        "` was supplied but the agent-out dir `" ++ projectDir ++
        "` is not an `<owner__repo>` slug, so org/repo cannot be derived"))
    | none, _, some (org, repo) =>
      if host ∈ env.hosts then .ok ⟨host, org, repo⟩
      else .error (.other ("--host `" ++ host ++
        "` is not present in config/hosts.yaml; add it or drop the override to fall back to cwd->origin"))
  | none =>
    match trusted, splitOwnerRepo projectDir with
    | some identity, _ => .ok identity
    | none, some (org, repo) =>
      if 1 < env.hosts.length then .error .unresolvable
      else .ok ⟨env.hosts.headD "github.com", org, repo⟩
    | none, none => .error .unresolvable

def isoDatePart (iso : String) : String := String.ofList (iso.toList.takeWhile (· ≠ 'T'))

/-- A record that has passed the filters and is not archived yet. -/
structure Eligible where
  record : SkillUsageRecord
  raw : Bytes
  owner : Owner

def orBlocked {α : Type} (result : Except String α) (prefix_ : String) : Except (Entry Fields) α :=
  match result with
  | .ok a => .ok a
  | .error e => .error (.blocked (prefix_ ++ e))

/-- The first part of a turn of the loop in `prepare`. -/
def eligible (env : Env Fields) (file : RecordFile) : Except (Entry Fields) Eligible := do
  let raw ← orBlocked file.raw "read failed: "
  let schema ← orBlocked (env.peekSchema raw) "parse failed: "
  ensure (schema = "skill-usage.record.v1" ∨ schema = "skill-usage.record.v2")
    (.blocked ("unsupported source schema `" ++ schema ++
      "` (expected one of skill-usage.record.v1, skill-usage.record.v2); skipped"))
  let record ← orBlocked (env.fromJsonBytes raw) "parse failed: "
  let owner ← orBlocked (normalizedOwner record) ""
  let day := isoDatePart record.startedAt
  ensure (env.filters.skill.all fun skill => decide (skill.toList <:+: owner.id.toList)) .filtered
  ensure (env.filters.repo.all (projectMatchesRepo (file.path.headD ""))) .filtered
  ensure (env.filters.since.all fun since => textLe since day) .filtered
  ensure (env.filters.until_.all fun until_ => textLe day until_) .filtered
  ensure (¬ env.filters.promotionOnly ∨ record.linkedRecords.any fun link =>
    link.recordType = "heuristic-inbox" ∨ link.recordType = "heuristic-inbox-case") .filtered
  ensure (("sha256:" ++ env.host.sha256Hex raw) ∉ env.digests)
    (.already ("sha256:" ++ env.host.sha256Hex raw))
  .ok ⟨record, raw, owner⟩

/-- The identity of an eligible record, and whether the rescue index was asked for it. -/
def resolve (env : Env Fields) (index : String → Option RescueSlot) (projectDir cwd : String) :
    Except (Entry Fields) RepoIdentity × Bool :=
  match deriveRepoIdentity env projectDir cwd with
  | .ok identity => (.ok identity, false)
  | .error (.other text) => (.error (.blocked text), false)
  | .error .unresolvable =>
    (match index projectDir with
      | some (.unique identity) => .ok identity
      | some .ambiguous => .error (.blocked ("ambiguous rescue: agent-out slug `" ++ projectDir ++
          "` matches multiple checkouts under working_repo_roots with different identities; cannot safely " ++
          "recover the host (the record's own cwd is gone)"))
      | none => .error
          (.blocked ("could not derive repo identity from agent-out dir `" ++ projectDir ++
          "` or record cwd `" ++ cwd ++ "`")), true)

/-- What `build_prepared` is called with. -/
structure Admitted extends Eligible where
  identity : RepoIdentity

def gate (env : Env Fields) (index : String → Option RescueSlot) (file : RecordFile) :
    Except (Entry Fields) Admitted := do
  let found ← eligible env file
  let identity ← (resolve env index (file.path.headD "") found.record.cwd).1
  ensure (identity.host ∈ env.hosts) (.blocked ("host `" ++ identity.host ++
    "` is not classified in config/hosts.yaml; add it (personal or employer) to archive this record"))
  .ok ⟨found, identity⟩

/-- The input of `build_prepared`. -/
def sourceRecord (env : Env Fields) (file : RecordFile) (admitted : Admitted) :
    SourceRecord Fields where
  raw := admitted.raw
  startedAt := admitted.record.startedAt
  skill := env.scrubSkill admitted.owner.id
  host := admitted.identity.host
  org := admitted.identity.org
  repo := admitted.identity.repo
  linkedRecords := admitted.record.linkedRecords
  child := env.child file.path
  fields := env.fieldsOf admitted.record
  metadata := env.metadataOf admitted.record file.path
  scrubLog := env.scrubLogOf admitted.record

/-- A turn of the loop; none is a panic. -/
def entryOf (env : Env Fields) (index : String → Option RescueSlot) (file : RecordFile) :
    Option (Entry Fields) :=
  match gate env index file with
  | .error entry => some entry
  | .ok admitted => (encodeBasicStamp admitted.record.startedAt).map fun stamp =>
    .prepared (buildPrepared { env.host with encodeBasicStamp := fun _ => stamp }
      (sourceRecord env file admitted))

def asksIndex (env : Env Fields) (file : RecordFile) : Bool :=
  match eligible env file with
  | .ok found => (resolve env env.rescueIndex (file.path.headD "") found.record.cwd).2
  | .error _ => false

/-- The loop of `prepare`, with the index if it has been built. -/
def prepareFrom (env : Env Fields) : Option (String → Option RescueSlot) → List RecordFile →
    Option (List (Entry Fields))
  | _, [] => some []
  | built, file :: files =>
    let index := built.getD env.rescueIndex
    (entryOf env index file).bind fun entry =>
      (prepareFrom env (if asksIndex env file then some index else built) files).map (entry :: ·)

/-- The entries of `prepare`, in the order of the records. -/
def prepareEntries (env : Env Fields) (files : List RecordFile) : Option (List (Entry Fields)) :=
  prepareFrom env none files

/-! ## The timestamps that panic -/

theorem cut_of_byteIs (h : byteIs text n c = true) :
    ∃ front rest, cutBytes text n = some (front, c :: rest) := by
  unfold byteIs at h
  cases hcut : cutBytes text n with
  | none =>
    rw [hcut] at h
    cases h
  | some parts =>
    obtain ⟨front, rest⟩ := parts
    rw [hcut] at h
    cases rest with
    | nil => simp at h
    | cons d rest =>
      obtain rfl : d = c := by simpa using h
      exact ⟨front, rest, rfl⟩

/-- An ASCII character takes one byte. -/
theorem cut_after (hc : c.utf8Size = 1) (h : byteIs text n c = true) :
    (cutBytes text (n + 1)).isSome := by
  obtain ⟨front, rest, hcut⟩ := cut_of_byteIs h
  obtain ⟨rfl, rfl⟩ := cutBytes_eq_some hcut
  have hlen : byteLen front + 1 = byteLen (front ++ [c]) := by simp [byteLen_append, byteLen, hc]
  rw [hlen, show front ++ c :: rest = (front ++ [c]) ++ rest by simp, cutBytes_append]
  rfl

theorem slice_isSome (hle : start ≤ stop)
    (hstart : (cutBytes text start).isSome) (hstop : (cutBytes text stop).isSome) :
    (sliceBytes text start stop).isSome := by
  obtain ⟨⟨before, after⟩, hbefore⟩ := Option.isSome_iff_exists.mp hstart
  obtain ⟨⟨front, rest⟩, hfront⟩ := Option.isSome_iff_exists.mp hstop
  obtain ⟨middle, -, hcut⟩ := cutBytes_front hle hbefore hfront
  rw [sliceBytes, hfront, Option.bind_some, hcut]
  rfl

theorem slice_eq_none (hstop : cutBytes text stop = none) :
    sliceBytes text start stop = none := by
  rw [sliceBytes, hstop]
  rfl

/-- The test goes through groups that can be sliced. -/
theorem allDigits_isSome {groups : List (Nat × Nat)}
    (h : ∀ group ∈ groups, (sliceBytes text group.1 group.2).isSome) :
      (allDigits text groups).isSome := by
  induction groups with
  | nil => rfl
  | cons group groups ih =>
    obtain ⟨digits, hdigits⟩ := Option.isSome_iff_exists.mp (h group mem_cons_self)
    rw [allDigits, hdigits, Option.bind_some]
    split
    · exact ih fun other hother => h other (mem_cons_of_mem _ hother)
    · rfl

theorem allDigits_append (text : List Char) (before after : List (Nat × Nat)) :
    allDigits text (before ++ after) =
      (allDigits text before).bind fun ok => if ok then allDigits text after else some false := by
  induction before with
  | nil => rfl
  | cons group before ih =>
    rw [cons_append, allDigits, allDigits]
    cases sliceBytes text group.1 group.2 with
    | none => rfl
    | some digits =>
      simp only [Option.bind_some]
      split
      · exact ih
      · rfl

theorem mapM_isSome {f : α → Option β} {xs : List α} (h : ∀ x ∈ xs, (f x).isSome) :
    (xs.mapM f).isSome := by
  induction xs with
  | nil => rfl
  | cons x xs ih =>
    obtain ⟨y, hy⟩ := Option.isSome_iff_exists.mp (h x mem_cons_self)
    obtain ⟨ys, hys⟩ := Option.isSome_iff_exists.mp (ih fun z hz => h z (mem_cons_of_mem _ hz))
    rw [mapM_cons, hy, hys]
    rfl

theorem length_mapM {f : α → Option β} {xs : List α} {ys : List β} (h : xs.mapM f = some ys) :
    ys.length = xs.length := by
  induction xs generalizing ys with
  | nil =>
    cases h
    rfl
  | cons x xs ih =>
    rw [mapM_cons] at h
    obtain ⟨y, -, h⟩ := Option.bind_eq_some_iff.mp h
    obtain ⟨rest, hrest, h⟩ := Option.bind_eq_some_iff.mp h
    cases h
    rw [length_cons, ih hrest, length_cons]

theorem groups_sliced (h : separated text = true) :
    ∀ group ∈ stampGroups.take 5, (sliceBytes text group.1 group.2).isSome := by
  simp only [separated, Bool.and_eq_true, decide_eq_true_eq] at h
  obtain ⟨⟨⟨⟨⟨-, h4⟩, h7⟩, h10⟩, h13⟩, h16⟩ := h
  have hcut : ∀ {n : Nat} {c : Char}, byteIs text n c = true → (cutBytes text n).isSome := by
    intro n c hbyte
    obtain ⟨front, rest, hcut⟩ := cut_of_byteIs hbyte
    rw [hcut]
    rfl
  have hzero : (cutBytes text 0).isSome := by cases text <;> rfl
  have hsize : ∀ c ∈ ['-', 'T', ':'], c.utf8Size = 1 := by
    simp only [forall_mem_cons, not_mem_nil, false_implies, implies_true, and_true]
    exact ⟨rfl, rfl, rfl⟩
  simp only [stampGroups, take_succ_cons, take_zero,
    forall_mem_cons, not_mem_nil,
    false_implies, implies_true, and_true]
  exact ⟨slice_isSome (by omega) hzero (hcut h4),
    slice_isSome (by omega) (cut_after (hsize '-' (by simp)) h4) (hcut h7),
    slice_isSome (by omega) (cut_after (hsize '-' (by simp)) h7) (hcut h10),
    slice_isSome (by omega) (cut_after (hsize 'T' (by simp)) h10) (hcut h13),
    slice_isSome (by omega) (cut_after (hsize ':' (by simp)) h13) (hcut h16)⟩

theorem encodeBasicStamp_panics_iff (rfc3339 : String) :
    encodeBasicStamp rfc3339 = none ↔ BadStamp rfc3339.toList := by
  unfold encodeBasicStamp BadStamp
  dsimp only
  by_cases hsep : separated rfc3339.toList = true
  · rw [if_pos hsep]
    have hsliced := groups_sliced hsep
    obtain ⟨first, hfirst⟩ := Option.isSome_iff_exists.mp (allDigits_isSome hsliced)
    have hgroups : stampGroups = stampGroups.take 5 ++ [(17, 19)] := rfl
    have h17 : (cutBytes rfc3339.toList 17).isSome := by
      have hall := hsep
      simp only [separated, Bool.and_eq_true] at hall
      exact cut_after (by decide) hall.2
    rw [hgroups, allDigits_append, hfirst, Option.bind_some, ← hgroups]
    cases first with
    | false => simp [hfirst]
    | true =>
      cases hcut : cutBytes rfc3339.toList 19 with
      | none =>
        have hslice : sliceBytes rfc3339.toList 17 19 = none := slice_eq_none hcut
        simp [allDigits, hslice, hsep, hfirst]
      | some parts =>
        have hslice := slice_isSome (by omega) h17 (Option.isSome_of_eq_some hcut)
        have hall : ∀ group ∈ stampGroups, (sliceBytes rfc3339.toList group.1 group.2).isSome := by
          rw [hgroups]
          intro group hgroup
          rcases List.mem_append.mp hgroup with hgroup | hgroup
          · exact hsliced group hgroup
          · rw [List.mem_singleton.mp hgroup]
            exact hslice
        obtain ⟨groups, hparts⟩ := Option.isSome_iff_exists.mp (mapM_isSome hall)
        obtain ⟨seconds, hseconds⟩ := Option.isSome_iff_exists.mp hslice
        rw [hparts]
        simp only [allDigits, hseconds, Option.bind_some, if_true]
        cases seconds.all isAsciiDigit <;> simp
  · rw [if_neg hsep]
    simp [hsep]

/-! ## The batch -/

variable {env : Env Fields} {child' : Path → String → Option Bytes} {file r : RecordFile}
  {files before after : List RecordFile} {es : List (Entry Fields)}

/-- Whoever builds the index, it is the same. -/
theorem prepareFrom_eq (built : Option (String → Option RescueSlot))
    (hbuilt : built.getD env.rescueIndex = env.rescueIndex)
    (files : List RecordFile) : prepareFrom env built files =
      files.mapM (entryOf env env.rescueIndex) := by
  induction files generalizing built with
  | nil => rfl
  | cons file files ih =>
    rw [prepareFrom, hbuilt, ih _ (by split <;> simp [hbuilt]), mapM_cons]
    cases entryOf env env.rescueIndex file with
    | none => rfl
    | some entry => cases files.mapM (entryOf env env.rescueIndex) <;> rfl

theorem entryOf_child {entry : Entry Fields}
    (h : entryOf { env with child := child' } env.rescueIndex file = some entry) :
    ∃ entry', entryOf env env.rescueIndex file = some entry' ∧ entry'.kind = entry.kind ∧
      (child' file.path = env.child file.path → entry' = entry) := by
  have hgate : gate { env with child := child' } env.rescueIndex file =
    gate env env.rescueIndex file := rfl
  unfold entryOf at h ⊢
  rw [hgate] at h
  cases hadmitted : gate env env.rescueIndex file with
  | error entry' =>
    rw [hadmitted] at h
    cases h
    exact ⟨_, rfl, rfl, fun _ => rfl⟩
  | ok admitted =>
    rw [hadmitted] at h
    obtain ⟨stamp, hstamp, rfl⟩ := Option.map_eq_some_iff.mp h
    dsimp only
    rw [hstamp]
    refine ⟨_, rfl, rfl, fun hchild => ?_⟩
    simp only [sourceRecord, hchild]

theorem entries_child
    (h : files.mapM (entryOf { env with child := child' } env.rescueIndex) = some es) :
    ∃ es', files.mapM (entryOf env env.rescueIndex) = some es' ∧ es'.map Entry.kind =
      es.map Entry.kind ∧
      ((∀ file ∈ files, child' file.path = env.child file.path) → es' = es) := by
  induction files generalizing es with
  | nil =>
    cases h
    exact ⟨[], rfl, rfl, fun _ => rfl⟩
  | cons file files ih =>
    rw [mapM_cons] at h
    obtain ⟨entry, hentry, h⟩ := Option.bind_eq_some_iff.mp h
    obtain ⟨rest, hrest, h⟩ := Option.bind_eq_some_iff.mp h
    cases h
    obtain ⟨entry', hentry', hkind, hsame⟩ := entryOf_child hentry
    obtain ⟨rest', hrest', hkinds, hsames⟩ := ih hrest
    refine ⟨entry' :: rest', by rw [mapM_cons, hentry', hrest']; rfl, by
      simp [hkind, hkinds], fun hchild => ?_⟩
    rw [hsame (hchild file mem_cons_self), hsames fun other hother =>
      hchild other (mem_cons_of_mem _ hother)]

theorem entryOf_panics_iff : entryOf env env.rescueIndex r = none ↔
    ∃ admitted, gate env env.rescueIndex r = .ok admitted ∧
      BadStamp admitted.record.startedAt.toList := by
  unfold entryOf
  cases gate env env.rescueIndex r with
  | error entry => simp
  | ok admitted => simp [← encodeBasicStamp_panics_iff]

/-- A record leaves the others alone, which are what they are without it, just when it does not come to a
timestamp that cannot be sliced. Without it, links to its file find something else. -/
theorem undisturbed_iff
    (hothers : prepareEntries { env with child := child' } (before ++ after) = some es) :
    (∃ entry es', prepareEntries env (before ++ r :: after) =
        some (es'.take before.length ++ entry :: es'.drop before.length) ∧
      es'.map Entry.kind = es.map Entry.kind ∧
      ((∀ file ∈ before ++ after, child' file.path = env.child file.path) → es' = es)) ↔
    ¬ ∃ admitted, gate env env.rescueIndex r = .ok admitted ∧
      BadStamp admitted.record.startedAt.toList := by
  unfold prepareEntries at hothers ⊢
  rw [prepareFrom_eq none rfl] at hothers ⊢
  obtain ⟨es', hes, hkinds, hsame⟩ := entries_child hothers
  rw [List.mapM_append] at hes
  obtain ⟨front, hfront, hes⟩ := Option.bind_eq_some_iff.mp hes
  obtain ⟨back, hback, hes⟩ := Option.bind_eq_some_iff.mp hes
  cases hes
  have hlength := length_mapM hfront
  rw [← entryOf_panics_iff, List.mapM_append, hfront, List.mapM_cons, hback]
  cases hentry : entryOf env env.rescueIndex r with
  | none =>
    refine ⟨fun ⟨_, _, h, _⟩ => ?_, fun h => absurd rfl h⟩
    cases h
  | some entry =>
    refine ⟨fun _ h => (by cases h), fun _ => ⟨entry, front ++ back, ?_, hkinds, hsame⟩⟩
    rw [← hlength, List.take_left, List.drop_left]
    rfl

end

/-- A run without filters, whose records name a skill and a time. -/
def sampleEnv : Env Unit where
  peekSchema _ := .ok "skill-usage.record.v1"
  fromJsonBytes raw := .ok ⟨"skill-usage.record.v1", some "deliver-pr", none,
    if raw = [] then "2026-06-14T10:00:00Z" else "2026-06-14T10:00:0é", "", []⟩
  digests := []
  hosts := ["github.com"]
  filters := ⟨none, none, none, none, false, none⟩
  identityFromCwd _ := none
  projectSlug owner repo := some (owner ++ "__" ++ repo)
  rescueIndex _ := none
  host := {
    sha256Hex := fun _ => "44136fa355b3678a1146ad16f7e8649e94fb4fc21fe77e8310c060f61caaff8a"
    scrubText := id
    scrubBytes := id
    encodeBasicStamp := id
    skillSlug := id
    rollupText := fun _ => []
    parseRollup := fun _ => none }
  child _ _ := none
  fieldsOf _ := ()
  metadataOf _ _ := []
  scrubLogOf _ := none
  scrubSkill := id

/-- A record file of a run directory. -/
def sampleFile (run : String) (raw : Bytes) : RecordFile :=
    ⟨["acme__app", run, recordFile], .ok raw⟩

theorem undisturbed_sample : ∃ entry es', prepareEntries sampleEnv
    [sampleFile "a" [], sampleFile "b" []] = some (entry :: es') ∧
      es'.map Entry.kind = [.prepared] := by
  obtain ⟨es, hes⟩ : ∃ es, prepareEntries { sampleEnv with child := fun _ _ => none }
    ([] ++ [sampleFile "b" []]) = some [es] := ⟨_, rfl⟩
  have hkind : es.kind = .prepared := by
    have hprepared :
      (prepareEntries sampleEnv [sampleFile "b" []]).map (·.map Entry.kind) = some [.prepared] := by
      decide
    rw [show prepareEntries sampleEnv [sampleFile "b" []] = some [es] from hes] at hprepared
    simpa using hprepared
  obtain ⟨entry, es', h, hkinds, -⟩ := (undisturbed_iff (r := sampleFile "a" []) hes).mpr (by
    rintro ⟨admitted, hgate, hbad⟩
    have hstamp : (gate sampleEnv sampleEnv.rescueIndex (sampleFile "a" [])).toOption.map
        (·.record.startedAt) = some "2026-06-14T10:00:00Z" := by decide
    rw [hgate] at hstamp
    have hstarted : admitted.record.startedAt = "2026-06-14T10:00:00Z" := Option.some.inj hstamp
    rw [hstarted] at hbad
    exact absurd hbad.2.2 (by decide))
  exact ⟨entry, es', h, by rw [hkinds, List.map_singleton, hkind]⟩

/-- A letter of two bytes behind the tenth of the seconds: the run ends, whatever else there is. -/
theorem stamp_aborts : (prepareEntries sampleEnv [sampleFile "b" []]).isSome ∧
    prepareEntries sampleEnv [sampleFile "a" [0x7b], sampleFile "b" []] = none := by
  refine ⟨by decide, ?_⟩
  have hnone : (prepareEntries sampleEnv [sampleFile "a" [0x7b], sampleFile "b" []]).isSome =
    false := by
    decide
  simpa using hnone

end NilsCli.Evidence
