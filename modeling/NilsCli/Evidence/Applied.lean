import NilsCli.Evidence.Backing

/-!
# What an applied batch leaves

The existence of the targets is tested before the batch is written, so what the archive had is kept
(`Written.kept`). A purge deletes the directories that the scope names (`purged_exactly_iff`).
-/

namespace NilsCli.Evidence

open Lib List

section
variable {Fields : Type} {host : Host Fields} {files files' : Table Path Bytes} {s t : Archive}

/-- `PreparedRecord::files`, without the sort. -/
def listedFiles (record : PreparedRecord Fields) : List Path :=
  (record.target ++ [rollupFile]) :: (record.target ++ ["metadata.yaml"]) ::
    (record.scrubLog.toList.map fun _ => record.target ++ [record.rollup.id ++ ".scrub.log"]) ++
    record.childFiles.map fun child => record.target ++ [child.typeSlug, child.name]

/-- The archive holds what was prepared. -/
structure Written (host : Host Fields) (records : List (PreparedRecord Fields))
    (s t : Archive) : Prop where
  /-- A target holds the listed files. -/
  listed : ∀ record ∈ records, ∀ path, record.target <+: path →
    ((t.files.lookup path).isSome ↔ path ∈ listedFiles record)
  bytes : ∀ record ∈ records, ∀ row ∈ recordFiles host record, t.files.lookup row.1 = some row.2
  apart : records.Pairwise fun a b => ∀ path ∈ listedFiles a, path ∉ listedFiles b
  children : ∀ record ∈ records,
    (record.childFiles.map fun child => (child.typeSlug, child.name)).Nodup
  kept : ∀ path bytes, s.files.lookup path = some bytes → t.files.lookup path = some bytes

/-! ## Names of children -/

theorem toString_injective {m n : Nat} (h : toString m = toString n) : m = n := by
  have hdigits : Nat.toDigits 10 m = Nat.toDigits 10 n := by
    have hchars := congrArg String.toList h
    simpa using hchars
  rw [← Nat.ofDigitChars_ten_toDigits (n := m), hdigits, Nat.ofDigitChars_ten_toDigits]

theorem indexed_injective {name : String} {m n : Nat}
    (h : indexed name m = indexed name n) : m = n := by
  have hchars := congrArg String.toList h
  refine toString_injective (String.toList_inj.mp ?_)
  unfold indexed at hchars
  dsimp only at hchars
  split at hchars
  · simpa [String.toList_append] using hchars
  · simpa [String.toList_append] using hchars

/-- The name that is chosen is not in use. -/
theorem uniqueName_fresh (used : List (String × String)) (typeSlug childName : String) :
    (typeSlug, uniqueName used typeSlug childName) ∉ used := by
  unfold uniqueName
  dsimp only
  cases hfind :
    (childName :: (range (used.length + 1)).map fun n => indexed childName (n + 1)).find?
      fun name => (typeSlug, name) ∉ used with
  | some name =>
    have hname := List.find?_some hfind
    simpa using hname
  | none =>
    -- as many different names as this cannot all be in use
    exfalso
    rw [List.find?_eq_none] at hfind
    have hsubset :
      (range (used.length + 1)).map
        (fun n => (typeSlug, indexed childName (n + 1))) ⊆ used := by
      intro pair hpair
      obtain ⟨n, hn, rfl⟩ := List.mem_map.mp hpair
      have hused :=
        hfind (indexed childName (n + 1)) (mem_cons_of_mem _ (List.mem_map.mpr ⟨n, hn, rfl⟩))
      simpa using hused
    have hnodup : ((range (used.length + 1)).map
        fun n => (typeSlug, indexed childName (n + 1))).Nodup := by
      refine List.nodup_range.map fun m n heq => ?_
      exact Nat.succ.inj (indexed_injective (Prod.ext_iff.mp heq).2)
    have hlength := (subperm_of_subset hnodup hsubset).length_le
    simp only [length_map, length_range] at hlength
    omega

theorem placeLinks_nodup (used : List (String × String)) (links : List LinkedRecord) :
    ((placeLinks host used links).map (·.2)).Nodup ∧
      ∀ placed ∈ placeLinks host used links, placed.2 ∉ used := by
  induction links generalizing used with
  | nil => exact ⟨nodup_nil, fun _ h => by cases h⟩
  | cons link links ih =>
    rw [placeLinks]
    have hfresh :=
      uniqueName_fresh used (sanitizePathSegment (host.scrubText link.recordType) "evidence")
      (sanitizePathSegment (childBasename (host.scrubText link.path)) "evidence")
    obtain ⟨hnodup, hunused⟩ := ih ((_, uniqueName used
      (sanitizePathSegment (host.scrubText link.recordType) "evidence")
      (sanitizePathSegment (childBasename (host.scrubText link.path)) "evidence")) :: used)
    refine ⟨?_, ?_⟩
    · rw [map_cons, nodup_cons]
      refine ⟨fun hmem => ?_, hnodup⟩
      obtain ⟨placed, hplaced, heq⟩ := List.mem_map.mp hmem
      exact hunused placed hplaced (heq ▸ mem_cons_self)
    · rintro placed (_ | ⟨_, hplaced⟩)
      · exact hfresh
      · exact fun hmem => hunused placed hplaced (mem_cons_of_mem _ hmem)

theorem children_nodup (record : SourceRecord Fields) :
    ((buildPrepared host record).childFiles.map fun child =>
      (child.typeSlug, child.name)).Nodup := by
  have hnodup := (@placeLinks_nodup Fields host [] (sortBy linkLe record.linkedRecords)).1
  refine hnodup.sublist ?_
  rw [buildPrepared]
  dsimp only
  rw [map_filterMap]
  induction placeLinks host [] (sortBy linkLe record.linkedRecords) with
  | nil => exact List.Sublist.refl _
  | cons placed rest ih =>
    rw [filterMap_cons, map_cons]
    cases record.child placed.1.path with
    | none => exact ih.cons _
    | some bytes => exact ih.cons_cons _

/-! ## Files -/

theorem recordFiles_paths (record : PreparedRecord Fields) (path : Path) :
    path ∈ (recordFiles host record).map (·.1) ↔ path ∈ listedFiles record := by
  cases hlog : record.scrubLog with
  | none => simp [recordFiles, listedFiles, hlog]
  | some log =>
    simp [recordFiles, listedFiles, hlog]
    grind

theorem target_of_listed {record : PreparedRecord Fields} {path : Path}
    (h : path ∈ listedFiles record) :
    record.target <+: path := by
  simp only [listedFiles, cons_append, mem_cons, mem_append, mem_map] at h
  rcases h with rfl | rfl | ⟨log, -, rfl⟩ | ⟨child, -, rfl⟩ <;> exact prefix_append _ _

theorem scrubLog_ne_metadata (id : String) : id ++ ".scrub.log" ≠ "metadata.yaml" := by
  intro h
  have hlast := congrArg (fun s : String => s.toList.getLast?) h
  simp at hlast

theorem recordFiles_nodup {record : PreparedRecord Fields}
    (h : (record.childFiles.map fun child => (child.typeSlug, child.name)).Nodup) :
    ((recordFiles host record).map (·.1)).Nodup := by
  have hchildren :
    (record.childFiles.map fun child => record.target ++ [child.typeSlug, child.name]).Nodup := by
    have hmap := h.map (f := fun name : String × String => record.target ++ [name.1, name.2])
      fun a b heq => by simpa [Prod.ext_iff] using heq
    rwa [map_map] at hmap
  have hname : rollupFile ≠ "metadata.yaml" := by decide
  cases hlog : record.scrubLog with
  | none =>
    simp only [recordFiles, hlog, Option.toList_none, map_nil, append_nil, map_cons,
      map_map, nodup_cons]
    refine ⟨?_, ?_, hchildren⟩ <;> simp [hname]
  | some log =>
    simp only [recordFiles, hlog, Option.toList_some, map_cons, map_nil, cons_append,
      map_append, map_map, nodup_cons]
    refine ⟨?_, ?_, ?_⟩
    · simp [hname, Ne.symm (scrubLog_ne_rollupFile record.rollup.id)]
    · simp [Ne.symm (scrubLog_ne_metadata record.rollup.id)]
    · rw [nodup_append]
      exact ⟨hchildren, nodup_singleton _, by simp⟩

theorem lookup_insertAll_of_notMem {rows : List (Path × Bytes)} {path : Path}
    (h : path ∉ rows.map (·.1))
    (files : Table Path Bytes) : (files.insertAll rows).lookup path = files.lookup path := by
  induction rows generalizing files with
  | nil => rfl
  | cons row rows ih =>
    rw [map_cons, mem_cons, not_or] at h
    exact (ih h.2 _).trans (AList.lookup_insert_ne h.1)

theorem lookup_insertAll_of_mem {rows : List (Path × Bytes)} (hnodup : (rows.map (·.1)).Nodup)
    {row : Path × Bytes} (hrow : row ∈ rows) :
      (files.insertAll rows).lookup row.1 = some row.2 := by
  obtain ⟨before, after, rfl⟩ := List.append_of_mem hrow
  have hafter : row.1 ∉ after.map (·.1) := by
    rw [map_append, nodup_append] at hnodup
    exact (List.nodup_cons.mp hnodup.2.1).1
  have hrest := lookup_insertAll_of_notMem hafter
    ((before.foldl (fun t row => t.insert row.1 row.2) files).insert row.1 row.2)
  rw [Table.insertAll, foldl_append, foldl_cons]
  exact hrest.trans (AList.lookup_insert ..)

theorem writeRecords_ok {records : List (PreparedRecord Fields)}
    (h : records.foldlM (fun files record => writeFiles files (recordFiles host record))
      files = .ok files') :
    files' = files.insertAll (records.flatMap (recordFiles host)) := by
  induction records generalizing files with
  | nil =>
    cases h
    rfl
  | cons record records ih =>
    rw [foldlM_cons, bind_eq_ok] at h
    obtain ⟨middle, hfirst, hrest⟩ := h
    rw [ih hrest, writeFiles_ok hfirst, flatMap_cons, Table.insertAll, Table.insertAll,
      foldl_append]

theorem apply_files {records : List (PreparedRecord Fields)} (h : apply host s records = .ok t) :
    t.files = s.files.insertAll (records.flatMap (recordFiles host)) ∧
      ∀ record ∈ records, ¬ pathExists s.files record.target := by
  unfold apply at h
  split at h
  next hnil =>
    cases h
    subst hnil
    exact ⟨rfl, fun _ hmem => by cases hmem⟩
  next =>
    rw [ensure_bind_ok, bind_eq_ok] at h
    obtain ⟨hfree, written, hwritten, h⟩ := h
    rw [bind_eq_ok] at h
    obtain ⟨catalog, -, h⟩ := h
    cases h
    exact ⟨writeRecords_ok hwritten, hfree⟩

/-! ## The batch -/

/-- No target of the batch is another one, or lies in it. -/
def TargetsApart (records : List (PreparedRecord Fields)) : Prop :=
  records.Pairwise fun a b => ¬ a.target <+: b.target ∧ ¬ b.target <+: a.target

theorem targetsApart_of_written {records : List (PreparedRecord Fields)}
    (h : Written host records s t) :
    TargetsApart records := by
  have hrollup : ∀ record : PreparedRecord Fields,
    record.target ++ [rollupFile] ∈ listedFiles record :=
    fun record => by simp [listedFiles]
  have hlisted : ∀ a ∈ records, ∀ b ∈ records, a.target <+: b.target →
      b.target ++ [rollupFile] ∈ listedFiles a := by
    intro a ha b hb hbelow
    rw [← h.listed a ha _ (hbelow.trans (prefix_append _ _)),
      h.bytes b hb (b.target ++ [rollupFile], host.rollupText b.rollup) (by simp [recordFiles])]
    rfl
  refine h.apart.imp_of_mem fun {a b} ha hb hdisjoint => ⟨fun hbelow => ?_, fun hbelow => ?_⟩
  · exact hdisjoint _ (hlisted a ha b hb hbelow) (hrollup b)
  · exact hdisjoint _ (hrollup a) (hlisted b hb a ha hbelow)

theorem disjoint_of_apart {a b : PreparedRecord Fields}
    (h : ¬ a.target <+: b.target ∧ ¬ b.target <+: a.target)
    {path : Path} (ha : a.target <+: path) (hb : b.target <+: path) : False := by
  rcases Nat.le_total a.target.length b.target.length with hle | hle
  · exact h.1 (prefix_of_prefix_length_le ha hb hle)
  · exact h.2 (prefix_of_prefix_length_le hb ha hle)

/-- After a batch that succeeds, each target holds what was prepared for it just when the targets lie
apart. -/
theorem written_iff {sources : List (SourceRecord Fields)}
    (h : apply host s (prepare host s sources) = .ok t) :
    Written host (prepare host s sources) s t ↔ TargetsApart (prepare host s sources) := by
  refine ⟨targetsApart_of_written, fun hapart => ?_⟩
  obtain ⟨hfiles, hfree⟩ := apply_files h
  have hchildren : ∀ record ∈ prepare host s sources,
      (record.childFiles.map fun child => (child.typeSlug, child.name)).Nodup := by
    intro record hrecord
    obtain ⟨source, -, rfl⟩ := List.mem_map.mp hrecord
    exact children_nodup source
  generalize prepare host s sources = records at *
  have hdisjoint : records.Pairwise fun a b => ∀ path ∈ listedFiles a, path ∉ listedFiles b :=
    hapart.imp fun hpair path ha hb =>
      disjoint_of_apart hpair (target_of_listed ha) (target_of_listed hb)
  have hnodup : ((records.flatMap (recordFiles host)).map (·.1)).Nodup := by
    rw [List.map_flatMap, List.nodup_flatMap]
    refine ⟨fun record hrecord => recordFiles_nodup (hchildren record hrecord), hdisjoint.imp ?_⟩
    intro a b hpair path ha hb
    exact hpair path ((recordFiles_paths a path).mp ha) ((recordFiles_paths b path).mp hb)
  have hbytes : ∀ record ∈ records, ∀ row ∈ recordFiles host record,
    t.files.lookup row.1 = some row.2 := by
    intro record hrecord row hrow
    rw [hfiles]
    exact lookup_insertAll_of_mem hnodup (List.mem_flatMap.mpr ⟨record, hrecord, hrow⟩)
  refine ⟨fun record hrecord path hpath => ⟨fun hsome => ?_, fun hlisted => ?_⟩, hbytes,
    hdisjoint, hchildren,
    fun path bytes hlookup => ?_⟩
  · obtain ⟨bytes, hlookup⟩ := Option.isSome_iff_exists.mp hsome
    rw [hfiles] at hlookup
    rcases Table.lookup_insertAll hlookup with hmem | hold
    · obtain ⟨other, hother, hrow⟩ := List.mem_flatMap.mp hmem
      have hlisted :=
        (@recordFiles_paths Fields host other path).mp (List.mem_map.mpr ⟨_, hrow, rfl⟩)
      by_cases hsame : other = record
      · exact hsame ▸ hlisted
      · have : Std.Symm fun a b : PreparedRecord Fields => ¬ a.target <+: b.target ∧
          ¬ b.target <+: a.target :=
          ⟨fun _ _ hpair => hpair.symm⟩
        have hpair := List.Pairwise.forall hapart hother hrecord hsame
        exact (disjoint_of_apart hpair (target_of_listed hlisted) hpath).elim
    · obtain ⟨rest, rfl⟩ := hpath
      exact absurd (pathExists_of_lookup hold) (hfree record hrecord)
  · obtain ⟨row, hrow, rfl⟩ :=
      List.mem_map.mp ((@recordFiles_paths Fields host record path).mpr hlisted)
    rw [hbytes record hrecord row hrow]
    rfl
  · by_cases hmem : path ∈ (records.flatMap (recordFiles host)).map (·.1)
    · obtain ⟨row, hrow, rfl⟩ := List.mem_map.mp hmem
      obtain ⟨record, hrecord, hrow⟩ := List.mem_flatMap.mp hrow
      have hlisted :=
        (@recordFiles_paths Fields host record row.1).mp (List.mem_map.mpr ⟨_, hrow, rfl⟩)
      obtain ⟨rest, hrest⟩ := target_of_listed hlisted
      rw [← hrest] at hlookup
      exact absurd (pathExists_of_lookup hlookup) (hfree record hrecord)
    · rw [hfiles, lookup_insertAll_of_notMem hmem, hlookup]

/-! ## Purging hosts -/

/-- `scope` of `purge::run`: the hosts that are named and those of the class. -/
def resolveScope {Class : Type} [DecidableEq Class] (named : List String) (class? : Option Class)
    (hosts : List (String × Class)) : List String :=
  named ++ (hosts.filter fun entry => class? = some entry.2).map (·.1)

inductive Migrated (host : Host Fields) (hostOf : Fields → String) (configured : List String) :
    Archive → List (Path × Rollup Fields) → Prop
  | init : Migrated host hostOf configured ⟨∅, none, []⟩ []
  | migrate {s t : Archive} {placed : List (Path × Rollup Fields)}
    (sources : List (SourceRecord Fields)) :
    Migrated host hostOf configured s placed →
    (∀ source ∈ sources, source.host ∈ configured ∧ hostOf source.fields = source.host) →
    apply host s (prepare host s sources) = .ok t →
    Migrated host hostOf configured t
      (placed ++ (prepare host s sources).map fun record =>
        (record.target ++ [rollupFile], record.rollup))

def hostDirectory (name : String) : String := sanitizePathSegment name "unknown-host"

variable {hostOf : Fields → String} {configured : List String}
  {placed : List (Path × Rollup Fields)}

theorem Migrated.placed_under (h : Migrated host hostOf configured s placed)
    {entry : Path × Rollup Fields}
    (hentry : entry ∈ placed) :
    ∃ rest, entry.1 = "evidence" :: hostDirectory (hostOf entry.2.fields) :: rest := by
  induction h with
  | init => cases hentry
  | migrate sources _ hsources _ ih =>
    rcases List.mem_append.mp hentry with hold | hnew
    · exact ih hold
    · obtain ⟨record, hrecord, rfl⟩ := List.mem_map.mp hnew
      obtain ⟨source, hsource, rfl⟩ := List.mem_map.mp hrecord
      have hhost := (hsources source (mem_of_mem_filter hsource)).2
      exact ⟨_, by simp only [buildPrepared, archiveTargetPath, hostDirectory, hhost,
        cons_append]; rfl⟩

theorem lookup_purge {scope : List String} (h : purge host s scope = .ok t) (path : Path) :
    t.files.lookup path = if inScope scope path then none else s.files.lookup path := by
  unfold purge at h
  rw [ensure_bind_ok] at h
  obtain ⟨-, h⟩ := h
  split at h
  next hnone =>
    cases h
    split
    next hscoped =>
      cases hlookup : s.files.lookup path with
      | none => rfl
      | some bytes =>
        rw [Table.lookup_eq_some_iff] at hlookup
        exact absurd (List.any_eq_true.mpr ⟨_, hlookup, hscoped⟩) hnone
    next => rfl
  next =>
    rw [bind_eq_ok] at h
    obtain ⟨catalog, -, h⟩ := h
    cases h
    rw [Table.lookup_filter]
    cases s.files.lookup path <;> cases inScope scope path <;> rfl

theorem inScope_directory (scope : List String) (name : String) (rest : Path) :
    inScope scope ("evidence" :: name :: rest) = true ↔ name ∈ scope := by
  simp [inScope, isPrefixOf]

/-- A purge is exact just when every rollup that is there has a host in the scope if and only if the
sanitized name of the host is in the scope. -/
theorem purged_exactly_iff {Class : Type} [DecidableEq Class] {named : List String}
    {class? : Option Class}
    {hosts : List (String × Class)} (h : Migrated host hostOf (hosts.map (·.1)) s placed)
    (hpurge : purge host s (resolveScope named class? hosts) = .ok t) :
    (∀ entry ∈ placed, s.files.lookup entry.1 = some (host.rollupText entry.2) →
      t.files.lookup entry.1 = if hostOf entry.2.fields ∈ resolveScope named class? hosts then none
        else some (host.rollupText entry.2)) ↔
    ∀ entry ∈ placed, s.files.lookup entry.1 = some (host.rollupText entry.2) →
      (hostDirectory (hostOf entry.2.fields) ∈ resolveScope named class? hosts ↔
        hostOf entry.2.fields ∈ resolveScope named class? hosts) := by
  refine forall₂_congr fun entry hentry => forall_congr' fun hthere => ?_
  obtain ⟨rest, hpath⟩ := h.placed_under hentry
  have hscoped := inScope_directory (resolveScope named class? hosts)
    (hostDirectory (hostOf entry.2.fields)) rest
  rw [lookup_purge hpurge, hthere, hpath]
  by_cases hdirectory : hostDirectory (hostOf entry.2.fields) ∈ resolveScope named class? hosts
  · by_cases hhost :
      hostOf entry.2.fields ∈ resolveScope named class? hosts <;> simp [hscoped, hdirectory, hhost]
  · by_cases hhost :
      hostOf entry.2.fields ∈ resolveScope named class? hosts <;> simp [hscoped, hdirectory, hhost]

end

/-- A batch of samples whose files can be written. -/
theorem samples_applied {sources : List (SourceRecord Unit)} (hne : sources ≠ [])
    (hapart : ∀ source ∈ sources, (buildPrepared sampleHost source).Apart)
    (hwrite : ((sources.map (buildPrepared sampleHost)).foldlM
      (fun files record => writeFiles files (recordFiles sampleHost record)) ∅).toOption.isSome) :
    ∃ t, apply sampleHost emptyArchive (prepare sampleHost emptyArchive sources) = .ok t := by
  have hprepare : prepare sampleHost emptyArchive sources =
    sources.map (buildPrepared sampleHost) := by
    simp [prepare, existingSourceDigests, emptyArchive]
  obtain ⟨files, hfiles⟩ := Option.isSome_iff_exists.mp hwrite
  have hempty : Matches sampleHost ∅ [] := matches_empty
  have hmatches := hempty.records sampleHost_readsBack
    (fun record (hrecord : record ∈ sources.map (buildPrepared sampleHost)) => ?_)
      (List.forall_mem_map.mpr hapart) (fun _ _ _ h => by cases h)
    (fun record hrecord other hother _ => ?_) (ok_of_toOption hfiles)
  · obtain ⟨rows, hrows, -⟩ := hmatches.buildDocument
    rw [hprepare]
    unfold apply
    rw [if_neg (by simpa using hne)]
    refine ⟨⟨files, some rows, emptyArchive.recorded ++ (sources.map (buildPrepared sampleHost)).map
      fun record => (record.rollup.sourceDigest, record.target)⟩,
      ensure_bind_ok.mpr ⟨by simp [pathExists, emptyArchive], ?_⟩⟩
    exact bind_eq_ok.mpr ⟨files, ok_of_toOption hfiles, bind_eq_ok.mpr ⟨rows, hrows, rfl⟩⟩
  · obtain ⟨source, -, rfl⟩ := List.mem_map.mp hrecord
    exact ⟨rfl, by simp [buildPrepared, archiveTargetPath]⟩
  · obtain ⟨source, -, rfl⟩ := List.mem_map.mp hrecord
    obtain ⟨other, -, rfl⟩ := List.mem_map.mp hother
    rfl

theorem sample_apart (name : String) (metadata : Bytes) : (buildPrepared sampleHost
    { sampleRecord "report.json" [] with host := name, metadata := metadata }).Apart := by
  have hchildren : (buildPrepared sampleHost (sampleRecord "report.json" [])).childFiles =
      [⟨"test", "report.json", []⟩] := by decide
  intro child hmem
  have hmem' : child ∈ (buildPrepared sampleHost (sampleRecord "report.json" [])).childFiles := hmem
  rw [hchildren, mem_singleton] at hmem'
  rw [hmem']
  decide

theorem written_two :
    let sources := [sampleRecord "report.json" [],
      { sampleRecord "report.json" [] with host := "git.corp", metadata := [0x6e] }]
    ∃ t, apply sampleHost emptyArchive (prepare sampleHost emptyArchive sources) = .ok t ∧
      Written sampleHost (prepare sampleHost emptyArchive sources) emptyArchive t := by
  intro sources
  obtain ⟨t, happly⟩ := @samples_applied sources (by simp [sources])
    (List.forall_mem_cons.mpr
      ⟨sample_apart _ [], List.forall_mem_singleton.mpr (sample_apart _ _)⟩) (by decide +kernel)
  refine ⟨t, happly, (written_iff happly).mpr ?_⟩
  have hprepare : prepare sampleHost emptyArchive sources =
      sources.map (buildPrepared sampleHost) := by
    simp [prepare, existingSourceDigests, emptyArchive]
  rw [hprepare]
  exact List.pairwise_pair.mpr (by decide +kernel)

/-- One record in two run directories: the second copy overwrites the sidecar of the first. -/
theorem copies_overwrite : ¬ ∀ (sources : List (SourceRecord Unit)) (t : Archive),
    apply sampleHost emptyArchive (prepare sampleHost emptyArchive sources) = .ok t →
      Written sampleHost (prepare sampleHost emptyArchive sources) emptyArchive t := by
  intro hclaim
  obtain ⟨t, happly⟩ := @samples_applied ([sampleRecord "report.json" [],
      { sampleRecord "report.json" [] with metadata := [0x6e] }]) (by simp)
    (List.forall_mem_cons.mpr
      ⟨sample_apart _ _, List.forall_mem_singleton.mpr (sample_apart _ [0x6e])⟩) (by decide +kernel)
  have hapart := targetsApart_of_written (hclaim _ t happly)
  have hsame := List.rel_of_pairwise_cons hapart List.mem_cons_self
  exact hsame.1 (List.prefix_refl _)

/-- A record of a host, in an archive of its own. -/
def sampleOf (name : String) : SourceRecord Unit :=
    { sampleRecord "report.json" [] with host := name }

theorem prepare_sampleOf (name : String) :
    prepare sampleHost emptyArchive [sampleOf name] =
      [buildPrepared sampleHost (sampleOf name)] := by
  simp [prepare, existingSourceDigests, emptyArchive]

theorem sample_purged (name : String) (t : Archive)
    (happly : apply sampleHost emptyArchive
      (prepare sampleHost emptyArchive [sampleOf name]) = .ok t) :
    Migrated sampleHost (fun _ => name) [name] t
        ((prepare sampleHost emptyArchive [sampleOf name]).map fun record =>
          (record.target ++ [rollupFile], record.rollup)) ∧
      t.files.lookup ((buildPrepared sampleHost (sampleOf name)).target ++ [rollupFile]) =
        some (sampleHost.rollupText (buildPrepared sampleHost (sampleOf name)).rollup) := by
  refine ⟨.migrate [sampleOf name] .init (by simp [sampleOf]) happly, ?_⟩
  rw [(apply_files happly).1, prepare_sampleOf, flatMap_singleton]
  refine @lookup_insertAll_of_mem _ _ (recordFiles_nodup (children_nodup _)) (_, _) ?_
  simp [recordFiles]

theorem sampleOf_applied (name : String)
    (hwrite : ((([sampleOf name]).map (buildPrepared sampleHost)).foldlM
    (fun files record => writeFiles files (recordFiles sampleHost record)) ∅).toOption.isSome) :
    ∃ t, apply sampleHost emptyArchive (prepare sampleHost emptyArchive [sampleOf name]) = .ok t ∧
      t.files = Table.insertAll
        (recordFiles sampleHost (buildPrepared sampleHost (sampleOf name))) ∅ := by
  obtain ⟨t, happly⟩ := @samples_applied [sampleOf name] (by simp)
    (List.forall_mem_singleton.mpr (sample_apart _ [])) hwrite
  refine ⟨t, happly, ?_⟩
  rw [(apply_files happly).1, prepare_sampleOf, flatMap_singleton,
    show emptyArchive.files = ∅ from rfl]

/-- A port in the name of a host: the purge finds no directory of that name. -/
theorem port_survives : ∃ s t placed, Migrated sampleHost (fun _ => "git.corp:8443")
    ["git.corp:8443"] s placed ∧
    purge sampleHost s (resolveScope ["git.corp:8443"] none [("git.corp:8443", ())]) = .ok t ∧
    ∃ entry ∈ placed, t.files.lookup entry.1 = some (sampleHost.rollupText entry.2) := by
  obtain ⟨s, happly, hfiles⟩ := sampleOf_applied "git.corp:8443" (by decide)
  obtain ⟨hmigrated, hlookup⟩ := sample_purged "git.corp:8443" s happly
  have hnone : (s.files.entries.any fun row =>
      inScope (resolveScope ["git.corp:8443"] none [("git.corp:8443", ())]) row.1) = false := by
    rw [hfiles]
    decide +kernel
  refine ⟨s, s, _, hmigrated, ?_, _, List.mem_map.mpr ⟨_, List.mem_singleton_self _, rfl⟩, hlookup⟩
  refine ensure_bind_ok.mpr ⟨by decide, ?_⟩
  rw [if_pos (by rw [hnone]; decide)]

theorem purged_exactly_github : ∃ s t placed, Migrated sampleHost (fun _ => "github.com")
    ["github.com"] s placed ∧
    purge sampleHost s (resolveScope ["github.com"] none [("github.com", ())]) = .ok t ∧
    ∀ entry ∈ placed, s.files.lookup entry.1 = some (sampleHost.rollupText entry.2) →
      t.files.lookup entry.1 = none := by
  obtain ⟨s, happly, hfiles⟩ := sampleOf_applied "github.com" (by decide)
  obtain ⟨hmigrated, -⟩ := sample_purged "github.com" s happly
  have hrollups : rollups (s.files.filter fun path _ =>
      !inScope (resolveScope ["github.com"] none [("github.com", ())]) path) = [] := by
    rw [hfiles]
    decide +kernel
  have hsome : (s.files.entries.any fun row =>
      inScope (resolveScope ["github.com"] none [("github.com", ())]) row.1) = true := by
    rw [hfiles]
    decide +kernel
  have hpurge : purge sampleHost s (resolveScope ["github.com"] none [("github.com", ())]) = .ok
      ⟨s.files.filter fun path _ =>
        !inScope (resolveScope ["github.com"] none [("github.com", ())]) path, some [],
        s.recorded.filter fun entry =>
          !inScope (resolveScope ["github.com"] none [("github.com", ())]) entry.2⟩ := by
    have hdocument : buildDocument sampleHost (s.files.filter fun path _ =>
        !inScope (resolveScope ["github.com"] none [("github.com", ())]) path) = .ok [] := by
      unfold buildDocument
      rw [hrollups]
      rfl
    refine ensure_bind_ok.mpr ⟨by decide, ?_⟩
    rw [if_neg (by rw [hsome]; decide)]
    exact bind_eq_ok.mpr ⟨_, hdocument, rfl⟩
  refine ⟨s, _, _, hmigrated, hpurge, ?_⟩
  have hdirectory : hostDirectory "github.com" = "github.com" := by decide
  have hexact := (purged_exactly_iff (by exact hmigrated) hpurge).mpr
    fun _ _ _ => by rw [hdirectory]
  intro entry hentry hthere
  rw [hexact entry hentry hthere, if_pos (by decide)]

end NilsCli.Evidence
