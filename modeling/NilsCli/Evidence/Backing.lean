import NilsCli.Evidence.Archive
import NilsCli.Lib.Json
import NilsCli.Lib.Transition

/-!
# What the catalog vouches for

The files with the name of a rollup are those of the records that were written and not purged since
(`Matches`), as long as no run copies a linked file under that name, or writes two records with
different digests to one directory (`Safe`).
-/

namespace NilsCli.Evidence

open Lib List

variable {rows : List (Path × Bytes)} {target rest : Path}

section
variable {Fields : Type} {host : Host Fields} {files files' : Table Path Bytes}
  {recorded : List (String × Path)} {path : Path} {bytes : Bytes}

/-- The directory is in the tree of a host. -/
def InTree (target : Path) : Prop := target.head? = some "evidence" ∧ 2 ≤ target.length

/-- The rollups are those of the records. -/
structure Matches (host : Host Fields) (files : Table Path Bytes)
    (recorded : List (String × Path)) : Prop where
  /-- Every file with the name of a rollup is the rollup of a record. -/
  sound : ∀ path bytes, files.lookup path = some bytes → path.getLast? = some rollupFile →
    ∃ entry ∈ recorded, path = entry.2 ++ [rollupFile] ∧
      host.parseRollup bytes = some (some entry.1)
  /-- Every record has its rollup. -/
  complete : ∀ entry ∈ recorded, InTree entry.2 ∧
    ∃ bytes, files.lookup (entry.2 ++ [rollupFile]) = some bytes ∧
      host.parseRollup bytes = some (some entry.1)

/-! ## Writing -/

theorem writeFile_ok (h : writeFile files path bytes = .ok files') :
    files' = files.insert path bytes := by
  unfold writeFile at h
  rw [ensure_bind_ok] at h
  exact (Except.ok.inj h.2).symm

/-- Files of other names leave the rollups alone. -/
theorem Matches.insert_other (h : Matches host files recorded)
    (hname : path.getLast? ≠ some rollupFile) : Matches host (files.insert path bytes) recorded where
  sound path' bytes' hlookup hlast := by
    refine h.sound path' bytes' ?_ hlast
    rwa [AList.lookup_insert_ne] at hlookup
    rintro rfl
    exact hname hlast
  complete entry hmem := by
    obtain ⟨hhead, bytes', hlookup, hparse⟩ := h.complete entry hmem
    refine ⟨hhead, bytes', ?_, hparse⟩
    rw [AList.lookup_insert_ne]
    · exact hlookup
    · rintro rfl
      simp at hname

theorem Matches.insert_rollup {digest : String} (h : Matches host files recorded)
    (htree : InTree path) (hparse : host.parseRollup bytes = some (some digest))
    (hsame : ∀ entry ∈ recorded, entry.2 = path → entry.1 = digest) :
    Matches host (files.insert (path ++ [rollupFile]) bytes) (recorded ++ [(digest, path)]) where
  sound path' bytes' hlookup hlast := by
    by_cases heq : path' = path ++ [rollupFile]
    · subst heq
      rw [AList.lookup_insert] at hlookup
      cases hlookup
      exact ⟨(digest, path), by simp, rfl, hparse⟩
    · rw [AList.lookup_insert_ne heq] at hlookup
      obtain ⟨entry, hmem, hpath, hparsed⟩ := h.sound path' bytes' hlookup hlast
      exact ⟨entry, mem_append_left _ hmem, hpath, hparsed⟩
  complete entry hmem := by
    by_cases heq : entry.2 = path
    · have hdigest : entry.1 = digest := by
        rcases List.mem_append.mp hmem with hold | hnew
        · exact hsame entry hold heq
        · rw [List.mem_singleton.mp hnew]
      rw [heq, hdigest]
      exact ⟨htree, bytes, AList.lookup_insert _, hparse⟩
    · have hold : entry ∈ recorded := by
        rcases List.mem_append.mp hmem with hold | hnew
        · exact hold
        · rw [List.mem_singleton.mp hnew] at heq
          exact absurd rfl heq
      obtain ⟨hhead', bytes', hlookup, hparsed⟩ := h.complete entry hold
      refine ⟨hhead', bytes', ?_, hparsed⟩
      rw [AList.lookup_insert_ne]
      · exact hlookup
      · exact fun hpath => heq (append_left_injective _ hpath)

theorem Matches.writeFiles (h : Matches host files recorded)
    (hnames : ∀ row ∈ rows, row.1.getLast? ≠ some rollupFile)
    (hwrite : writeFiles files rows = .ok files') : Matches host files' recorded := by
  induction rows generalizing files with
  | nil =>
    cases hwrite
    exact h
  | cons row rows ih =>
    unfold Evidence.writeFiles at hwrite
    rw [foldlM_cons, bind_eq_ok] at hwrite
    obtain ⟨middle, hfirst, hrest⟩ := hwrite
    rw [writeFile_ok hfirst] at hrest
    exact ih (h.insert_other (hnames row mem_cons_self))
      (fun other hother => hnames other (mem_cons_of_mem _ hother)) hrest

def PreparedRecord.Apart (record : PreparedRecord Fields) : Prop :=
  ∀ child ∈ record.childFiles, child.name ≠ rollupFile

theorem scrubLog_ne_rollupFile (id : String) : id ++ ".scrub.log" ≠ rollupFile := by
  intro h
  have hlast := congrArg (fun s : String => s.toList.getLast?) h
  simp [rollupFile] at hlast

theorem Matches.record {record : PreparedRecord Fields} (hreads : host.ReadsBack)
    (h : Matches host files recorded) (htree : InTree record.target) (hapart : record.Apart)
    (hsame : ∀ entry ∈ recorded, entry.2 = record.target → entry.1 = record.rollup.sourceDigest)
    (hwrite : Evidence.writeFiles files (recordFiles host record) = .ok files') :
    Matches host files' (recorded ++ [(record.rollup.sourceDigest, record.target)]) := by
  unfold recordFiles Evidence.writeFiles at hwrite
  rw [cons_append, foldlM_cons, bind_eq_ok] at hwrite
  obtain ⟨middle, hfirst, hrest⟩ := hwrite
  rw [writeFile_ok hfirst] at hrest
  refine (h.insert_rollup htree (hreads record.rollup) hsame).writeFiles ?_ hrest
  intro row hrow
  rcases List.mem_append.mp hrow with hrow | hlog
  · rcases List.mem_cons.mp hrow with rfl | hchild
    · simp [rollupFile]
    · obtain ⟨child, hmem, rfl⟩ := List.mem_map.mp hchild
      simpa using hapart child hmem
  · obtain ⟨log, -, rfl⟩ := List.mem_map.mp hlog
    simpa using scrubLog_ne_rollupFile record.rollup.id

theorem Matches.records {records : List (PreparedRecord Fields)} (hreads : host.ReadsBack)
    (h : Matches host files recorded) (htrees : ∀ record ∈ records, InTree record.target)
    (haparts : ∀ record ∈ records, record.Apart)
    (hsame : ∀ record ∈ records, ∀ entry ∈ recorded, entry.2 = record.target →
      entry.1 = record.rollup.sourceDigest)
    (hdistinct : ∀ record ∈ records, ∀ other ∈ records, record.target = other.target →
      record.rollup.sourceDigest = other.rollup.sourceDigest)
    (hwrite : records.foldlM (fun files record => Evidence.writeFiles files (recordFiles host record))
      files = .ok files') :
    Matches host files'
      (recorded ++ records.map fun record => (record.rollup.sourceDigest, record.target)) := by
  induction records generalizing files recorded with
  | nil =>
    cases hwrite
    simpa using h
  | cons record records ih =>
    rw [foldlM_cons, bind_eq_ok] at hwrite
    obtain ⟨middle, hfirst, hrest⟩ := hwrite
    have hmiddle := h.record hreads (htrees record mem_cons_self)
      (haparts record mem_cons_self) (hsame record mem_cons_self) hfirst
    have hresult := ih hmiddle (fun other hother => htrees other (mem_cons_of_mem _ hother))
      (fun other hother => haparts other (mem_cons_of_mem _ hother)) ?_
      (fun other hother another hanother => hdistinct other (mem_cons_of_mem _ hother) another
        (mem_cons_of_mem _ hanother)) hrest
    · simpa using hresult
    · intro other hother entry hentry htarget
      rcases List.mem_append.mp hentry with hold | hnew
      · exact hsame other (mem_cons_of_mem _ hother) entry hold htarget
      · rw [List.mem_singleton.mp hnew] at htarget ⊢
        exact hdistinct record mem_cons_self other (mem_cons_of_mem _ hother) htarget

theorem mem_rollups {row : Path × Bytes} : row ∈ rollups files ↔
    files.lookup row.1 = some row.2 ∧ row.1.head? = some "evidence" ∧
      row.1.getLast? = some rollupFile := by
  unfold rollups
  rw [mem_filter, decide_eq_true_eq, mem_map, Table.lookup_eq_some_iff]
  constructor
  · rintro ⟨⟨entry, hentry, rfl⟩, hrest⟩
    exact ⟨hentry, hrest⟩
  · rintro ⟨hentry, hrest⟩
    exact ⟨⟨_, hentry, rfl⟩, hrest⟩

theorem Matches.buildDocument (h : Matches host files recorded) :
    ∃ rows, Evidence.buildDocument host files = .ok rows ∧
      ∀ digest, digest ∈ rows.map (·.sourceDigest) ↔ ∃ target, (digest, target) ∈ recorded := by
  have hparse : ∀ row ∈ rollups files, ∃ entry ∈ recorded, row.1 = entry.2 ++ [rollupFile] ∧
      host.parseRollup row.2 = some (some entry.1) := by
    intro row hrow
    obtain ⟨hlookup, -, hlast⟩ := mem_rollups.mp hrow
    exact h.sound row.1 row.2 hlookup hlast
  let digestOf (row : Path × Bytes) : String := ((host.parseRollup row.2).getD none).getD ""
  refine ⟨(rollups files).map fun row => ⟨row.1, digestOf row⟩, mapM_eq_ok_map fun row hrow => ?_,
    fun digest => ?_⟩
  · obtain ⟨entry, -, -, hparsed⟩ := hparse row hrow
    simp [recordFromRollup, digestOf, hparsed]
  · rw [map_map, mem_map]
    constructor
    · rintro ⟨row, hrow, rfl⟩
      obtain ⟨entry, hmem, -, hparsed⟩ := hparse row hrow
      refine ⟨entry.2, ?_⟩
      simpa [digestOf, hparsed] using hmem
    · rintro ⟨target, hmem⟩
      obtain ⟨hhead, bytes, hlookup, hparsed⟩ := h.complete _ hmem
      refine ⟨(target ++ [rollupFile], bytes), mem_rollups.mpr ⟨hlookup, ?_, by simp⟩, ?_⟩
      · rw [List.head?_append, hhead.1]
        rfl
      · simp [digestOf, hparsed]

/-! ## Runs -/

def archives (host : Host Fields) : Lts where
  State := Archive
  Label := Step Fields
  init s := s = ⟨∅, none, []⟩
  step step s t := next host s step = .ok t

def Safe (host : Host Fields) (step : Step Fields) (s : Archive) : Prop :=
  match step with
  | .migrate sources => (∀ record ∈ prepare host s sources, record.Apart) ∧
      ∀ record ∈ prepare host s sources, ∀ other ∈ prepare host s sources,
        record.target = other.target → record.rollup.sourceDigest = other.rollup.sourceDigest
  | .purge _ | .catalog => True

def Backed (host : Host Fields) (s : Archive) : Prop :=
  (∃ rows, buildDocument host s.files = .ok rows) ∧
    ∀ digest, digest ∈ existingSourceDigests s ↔
      ∃ target, (digest, target) ∈ s.recorded ∧ pathExists s.files target

structure Sound (host : Host Fields) (s : Archive) : Prop where
  files : Matches host s.files s.recorded
  catalog : ∀ digest, digest ∈ existingSourceDigests s ↔ ∃ target, (digest, target) ∈ s.recorded

variable {s t : Archive}

theorem Sound.of_catalog {rows : List CatalogRecord} (h : Matches host files recorded)
    (hrows : Evidence.buildDocument host files = .ok rows) :
    Sound host ⟨files, some rows, recorded⟩ := by
  obtain ⟨rows', hrows', hdigests⟩ := h.buildDocument
  rw [hrows] at hrows'
  cases hrows'
  exact ⟨h, hdigests⟩

theorem pathExists_of_lookup (h : files.lookup (target ++ rest) = some bytes) :
    pathExists files target := by
  rw [Table.lookup_eq_some_iff] at h
  exact List.any_eq_true.mpr ⟨_, h, List.isPrefixOf_iff_prefix.mpr (prefix_append _ _)⟩

theorem Matches.pathExists (h : Matches host files recorded) {entry : String × Path}
    (hmem : entry ∈ recorded) : Evidence.pathExists files entry.2 := by
  obtain ⟨-, bytes, hlookup, -⟩ := h.complete entry hmem
  exact pathExists_of_lookup hlookup

theorem Sound.backed (h : Sound host s) : Backed host s := by
  obtain ⟨rows, hrows, -⟩ := h.files.buildDocument
  refine ⟨⟨rows, hrows⟩, fun digest => ?_⟩
  rw [h.catalog]
  constructor
  · rintro ⟨target, hmem⟩
    exact ⟨target, hmem, h.files.pathExists hmem⟩
  · rintro ⟨target, hmem, -⟩
    exact ⟨target, hmem⟩

theorem Sound.apply {records : List (PreparedRecord Fields)} (hreads : host.ReadsBack)
    (h : Sound host s) (htrees : ∀ record ∈ records, InTree record.target)
    (haparts : ∀ record ∈ records, record.Apart)
    (hdistinct : ∀ record ∈ records, ∀ other ∈ records, record.target = other.target →
      record.rollup.sourceDigest = other.rollup.sourceDigest)
    (happly : apply host s records = .ok t) : Sound host t := by
  unfold Evidence.apply at happly
  split at happly
  next =>
    cases happly
    exact h
  next =>
    rw [ensure_bind_ok, bind_eq_ok] at happly
    obtain ⟨hfresh, files, hwrite, happly⟩ := happly
    rw [bind_eq_ok] at happly
    obtain ⟨catalog, hcatalog, happly⟩ := happly
    cases happly
    refine .of_catalog (h.files.records hreads htrees haparts ?_ hdistinct hwrite) hcatalog
    -- a directory that has a record was there before the run
    intro record hrecord entry hentry htarget
    have hexists := h.files.pathExists hentry
    rw [htarget] at hexists
    exact absurd hexists (hfresh record hrecord)

/-- A file in a directory is in scope with the directory. -/
theorem inScope_append {hosts : List String} (h : InTree target) :
    inScope hosts (target ++ rest) = inScope hosts target := by
  obtain ⟨first, second, tail, rfl⟩ : ∃ first second tail, target = first :: second :: tail := by
    match target, h.2 with
    | first :: second :: tail, _ => exact ⟨first, second, tail, rfl⟩
  simp [inScope, isPrefixOf]

theorem Matches.purge (h : Matches host files recorded) (hosts : List String) :
    Matches host (files.filter fun path _ => !inScope hosts path)
      (recorded.filter fun entry => !inScope hosts entry.2) where
  sound path bytes hlookup hlast := by
    rw [Table.lookup_filter, Option.filter_eq_some_iff] at hlookup
    obtain ⟨hlookup, hkept⟩ := hlookup
    obtain ⟨entry, hmem, rfl, hparse⟩ := h.sound path bytes hlookup hlast
    refine ⟨entry, List.mem_filter.mpr ⟨hmem, ?_⟩, rfl, hparse⟩
    rwa [inScope_append (h.complete entry hmem).1] at hkept
  complete entry hmem := by
    obtain ⟨hmem, hkept⟩ := List.mem_filter.mp hmem
    obtain ⟨htree, bytes, hlookup, hparse⟩ := h.complete entry hmem
    refine ⟨htree, bytes, ?_, hparse⟩
    rw [Table.lookup_filter, Option.filter_eq_some_iff, inScope_append htree]
    exact ⟨hlookup, hkept⟩

theorem Sound.next {step : Step Fields} (hreads : host.ReadsBack) (h : Sound host s)
    (hsafe : Safe host step s) (hnext : next host s step = .ok t) : Sound host t := by
  cases step with
  | migrate sources =>
    refine h.apply hreads (fun record hrecord => ?_) hsafe.1 hsafe.2 hnext
    obtain ⟨source, -, rfl⟩ := List.mem_map.mp hrecord
    exact ⟨rfl, by simp [buildPrepared, archiveTargetPath]⟩
  | purge hosts =>
    unfold Evidence.next Evidence.purge at hnext
    rw [ensure_bind_ok] at hnext
    obtain ⟨-, hnext⟩ := hnext
    split at hnext
    next =>
      cases hnext
      exact h
    next =>
      rw [bind_eq_ok] at hnext
      obtain ⟨catalog, hcatalog, hnext⟩ := hnext
      cases hnext
      exact .of_catalog (h.files.purge hosts) hcatalog
  | catalog =>
    unfold Evidence.next at hnext
    rw [bind_eq_ok] at hnext
    obtain ⟨catalog, hcatalog, hnext⟩ := hnext
    cases hnext
    exact .of_catalog h.files hcatalog

/-- In every safe run the digests of the catalog are backed by records. -/
theorem digests_backed (hreads : host.ReadsBack) {s : Archive}
    (h : ((archives host).restrict (Safe host)).Reach s) : Backed host s := by
  refine Sound.backed (h.invariant (I := Sound host) ?_ ?_)
  · rintro _ rfl
    exact ⟨⟨fun _ _ hlookup => by simp at hlookup, fun _ hmem => by cases hmem⟩,
      fun _ => by simp [existingSourceDigests]⟩
  · rintro step s t hsound ⟨hsafe, hnext⟩
    exact hsound.next hreads hsafe hnext

end

/-! ## A linked rollup -/

/-- The text of a rollup that has no other fields. -/
def sampleText (digest : String) : Bytes :=
  ascii "\x7b\"source_digest\":" ++ (writeString digest ++ ascii "\x7d")

theorem sampleText_injective : Function.Injective sampleText := by
  intro digest digest' h
  exact (delimited_writeString _ _ _ _ (append_cancel_left h)).1

open Classical in
noncomputable def sampleHost : Host Unit where
  sha256Hex _ := "44136fa355b3678a1146ad16f7e8649e94fb4fc21fe77e8310c060f61caaff8a"
  scrubText text := text
  scrubBytes bytes := bytes
  encodeBasicStamp _ := "20260614T100000Z"
  skillSlug skill := skill
  rollupText rollup := sampleText rollup.sourceDigest
  parseRollup bytes := if h : ∃ digest, sampleText digest = bytes then some (some h.choose) else none

theorem parse_sampleText (digest : String) :
    sampleHost.parseRollup (sampleText digest) = some (some digest) := by
  have h : ∃ digest', sampleText digest' = sampleText digest := ⟨digest, rfl⟩
  simp only [sampleHost, dif_pos h, sampleText_injective h.choose_spec]

theorem sampleHost_readsBack : sampleHost.ReadsBack := fun rollup =>
  parse_sampleText rollup.sourceDigest

/-- A record with one linked file. -/
def sampleRecord (name : String) (bytes : Bytes) : SourceRecord Unit where
  raw := [0x7b, 0x7d]
  startedAt := "2026-06-14T10:00:00Z"
  skill := "deliver-pr"
  host := "github.com"
  org := "acme"
  repo := "app"
  linkedRecords := [⟨"test", name⟩]
  child _ := some bytes
  fields := ()
  metadata := []
  scrubLog := none

def emptyArchive : Archive := ⟨∅, none, []⟩

theorem migrate_one {record : SourceRecord Unit} {rows : List CatalogRecord}
    (hwrite : writeFiles ∅ (recordFiles sampleHost (buildPrepared sampleHost record)) = .ok files)
    (hrows : buildDocument sampleHost files = .ok rows) :
    (archives sampleHost).step (.migrate [record]) emptyArchive
      ⟨files, some rows, [((buildPrepared sampleHost record).rollup.sourceDigest,
        (buildPrepared sampleHost record).target)]⟩ := by
  show apply sampleHost emptyArchive [buildPrepared sampleHost record] = _
  unfold apply
  rw [if_neg (cons_ne_nil _ _), ensure_bind_ok]
  refine ⟨by simp [pathExists, emptyArchive], ?_⟩
  have hfold : [buildPrepared sampleHost record].foldlM (fun files record =>
      writeFiles files (recordFiles sampleHost record)) emptyArchive.files = .ok files := by
    rw [foldlM_cons]
    show (writeFiles ∅ (recordFiles sampleHost (buildPrepared sampleHost record)) >>= _) = _
    rw [hwrite]
    rfl
  rw [hfold, ok_bind, hrows]
  rfl

/-- The only record of a run cannot collide. -/
theorem safe_one {record : SourceRecord Unit} (hapart : (buildPrepared sampleHost record).Apart) :
    Safe sampleHost (.migrate [record]) emptyArchive := by
  have hprepared : prepare sampleHost emptyArchive [record] = [buildPrepared sampleHost record] := rfl
  refine ⟨fun prepared hmem => ?_, fun prepared hmem other hother _ => ?_⟩
  · rw [hprepared, mem_singleton] at hmem
    exact hmem ▸ hapart
  · rw [hprepared, mem_singleton] at hmem hother
    rw [hmem, hother]

theorem matches_empty : Matches host ∅ [] :=
  ⟨fun _ _ hlookup _ => (by simp at hlookup), fun _ hmem => (by cases hmem)⟩

theorem backed_one {record : SourceRecord Unit} (hapart : (buildPrepared sampleHost record).Apart)
    (hwrite : writeFiles ∅ (recordFiles sampleHost (buildPrepared sampleHost record)) = .ok files) :
    ∃ s, ((archives sampleHost).restrict (Safe sampleHost)).Reach s ∧ s.recorded.length = 1 := by
  have hempty : Matches sampleHost ∅ [] := matches_empty
  have hmatches := hempty.record sampleHost_readsBack
    ⟨rfl, by simp [buildPrepared, archiveTargetPath]⟩ hapart (fun _ hmem => by cases hmem) hwrite
  obtain ⟨rows, hrows, -⟩ := hmatches.buildDocument
  have hinit : ((archives sampleHost).restrict (Safe sampleHost)).Reach emptyArchive := .init rfl
  exact ⟨_, hinit.next ⟨safe_one hapart, migrate_one hwrite hrows⟩, rfl⟩

theorem digests_backed_sample : ∃ s, Backed sampleHost s ∧ s.recorded.length = 1 := by
  have hchildren : (buildPrepared sampleHost (sampleRecord "report.json" [])).childFiles =
      [⟨"test", "report.json", []⟩] := by decide
  have hapart : (buildPrepared sampleHost (sampleRecord "report.json" [])).Apart := by
    intro child hmem
    rw [hchildren, List.mem_singleton] at hmem
    rw [hmem]
    decide
  have hwrites : (writeFiles ∅ (recordFiles sampleHost
      (buildPrepared sampleHost (sampleRecord "report.json" [])))).toOption.isSome := by
    decide +kernel
  obtain ⟨files, hfiles⟩ := Option.isSome_iff_exists.mp hwrites
  obtain ⟨s, hreach, hone⟩ := backed_one hapart (ok_of_toOption hfiles)
  exact ⟨s, digests_backed sampleHost_readsBack hreach, hone⟩

theorem writeFiles_ok (h : writeFiles files rows = .ok files') :
    files' = rows.foldl (fun files row => files.insert row.1 row.2) files := by
  induction rows generalizing files with
  | nil =>
    cases h
    rfl
  | cons row rows ih =>
    unfold writeFiles at h
    rw [foldlM_cons, bind_eq_ok] at h
    obtain ⟨middle, hfirst, hrest⟩ := h
    rw [foldl_cons, ← writeFile_ok hfirst]
    exact ih hrest

/-- A linked file with the name of a rollup gets a row in the catalog, whose digest no record has
that was written. -/
theorem linked_rollup_counts : ¬ ∀ (Fields : Type) (host : Host Fields), host.ReadsBack →
    ∀ s : Archive, (archives host).Reach s → Backed host s := by
  intro hclaim
  obtain ⟨record, hrecord⟩ : ∃ record, record = sampleRecord rollupFile (sampleText "sha256:ff") :=
    ⟨_, rfl⟩
  have hwrites : (writeFiles ∅ (recordFiles sampleHost
      (buildPrepared sampleHost record))).toOption.isSome := by
    rw [hrecord]
    decide
  obtain ⟨files, hfiles⟩ := Option.isSome_iff_exists.mp hwrites
  have hwrite := ok_of_toOption hfiles
  have hdigest : (buildPrepared sampleHost record).rollup.sourceDigest ≠ "sha256:ff" := by
    rw [hrecord]
    decide
  obtain ⟨digest, hsource⟩ : ∃ digest,
      (buildPrepared sampleHost record).rollup.sourceDigest = digest := ⟨_, rfl⟩
  obtain ⟨target, htarget⟩ : ∃ target, (buildPrepared sampleHost record).target = target := ⟨_, rfl⟩
  have hhead : target.head? = some "evidence" := htarget ▸ rfl
  have hrecordFiles : recordFiles sampleHost (buildPrepared sampleHost record) =
      [(target ++ [rollupFile], sampleText digest), (target ++ ["metadata.yaml"], []),
        (target ++ ["test", rollupFile], sampleText "sha256:ff")] := by
    rw [← hsource, ← htarget, hrecord]
    decide
  have hinserted := writeFiles_ok hwrite
  rw [hrecordFiles] at hinserted
  simp only [List.foldl_cons, List.foldl_nil] at hinserted
  have htexts : ∀ row ∈ rollups files, ∃ digest, row.2 = sampleText digest := by
    intro row hrow
    obtain ⟨hlookup, -, hlast⟩ := mem_rollups.mp hrow
    rw [hinserted, Table.lookup_insert_eq_some] at hlookup
    rcases hlookup with ⟨-, htext⟩ | ⟨-, hlookup⟩
    · exact ⟨_, htext.symm⟩
    · rcases Table.lookup_insert_eq_some.mp hlookup with ⟨hname, -⟩ | ⟨-, hlookup⟩
      · rw [hname] at hlast
        simp [rollupFile] at hlast
      · rcases Table.lookup_insert_eq_some.mp hlookup with ⟨-, htext⟩ | ⟨-, hlookup⟩
        · exact ⟨_, htext.symm⟩
        · simp at hlookup
  let rowOf (row : Path × Bytes) : CatalogRecord :=
    ⟨row.1, ((sampleHost.parseRollup row.2).getD none).getD ""⟩
  have hrows : buildDocument sampleHost files = .ok ((rollups files).map rowOf) := by
    refine mapM_eq_ok_map fun row hrow => ?_
    obtain ⟨digest, hrow⟩ := htexts row hrow
    simp only [recordFromRollup, rowOf, hrow, parse_sampleText, Option.getD_some]
  have hlinked : (target ++ ["test", rollupFile], sampleText "sha256:ff") ∈ rollups files := by
    refine mem_rollups.mpr ⟨?_, ?_, by simp⟩
    · rw [hinserted]
      exact AList.lookup_insert _
    · rw [List.head?_append, hhead]
      rfl
  have hinit : (archives sampleHost).Reach emptyArchive := .init rfl
  have hbacked := (hclaim Unit sampleHost sampleHost_readsBack _
    (hinit.next (migrate_one hwrite hrows))).2 "sha256:ff"
  obtain ⟨target', hmem, -⟩ := hbacked.mp (List.mem_map.mpr ⟨_, List.mem_map_of_mem hlinked, by
    simp [rowOf, parse_sampleText]⟩)
  rw [List.mem_singleton, Prod.mk.injEq] at hmem
  exact hdigest hmem.1.symm

end NilsCli.Evidence
