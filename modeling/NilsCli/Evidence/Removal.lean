import NilsCli.Evidence.Archive

/-!
# Removing evidence

`prune-source` decides on each record by itself and then removes whole directories, so a record below
another one's directory goes with it.
-/

namespace NilsCli.Evidence

open Lib

variable {a b dir : Path}

/-- The records by their directories, read or not; the project comes first. -/
abbrev SourceTree := Table Path (Option Bytes)

/-! ## Selecting -/

def splitSlug : List Char → Option (List Char × List Char)
  | '_' :: '_' :: rest => some ([], rest)
  | c :: rest => (splitSlug rest).map fun parts => (c :: parts.1, parts.2)
  | [] => none

/-- `project_matches_repo` of `migrate`: cut at the first `__`. -/
def projectMatchesRepo (projectDir : String) (repoFilter : String) : Bool :=
  projectDir = repoFilter ||
    (splitSlug projectDir.toList).any fun parts => String.ofList parts.2 = repoFilter

/-- `repo_matches` of `prune-source`: cut at the last `__`. -/
def repoMatches (projectName : String) (want : String) : Bool :=
  projectName = want ||
    (splitSlug projectName.toList.reverse).any fun parts => String.ofList parts.1.reverse = want

def pathLe : Path → Path → Bool
  | [], _ => true
  | _ :: _, [] => false
  | a :: as, b :: bs => if a = b then pathLe as bs else textLe a b

def recordFile : String := "skill-usage.record.json"

/-- The order of the record paths. -/
def recordLe (a b : Path) : Bool := pathLe (a ++ [recordFile]) (b ++ [recordFile])

/-- `enumerate_records`: the records below a child of a project that the filter selects. -/
def enumerateRecords (tree : SourceTree) (repo : Option String) : List Path :=
  sortBy recordLe ((tree.entries.map (·.1)).filter fun dir =>
    2 ≤ dir.length ∧ repo.all (repoMatches (dir.headD "")))

section
variable (sha256Hex : Bytes → String)

/-- `already archived`. -/
def archived (digests : List String) (tree : SourceTree) (dir : Path) : Bool :=
  ((tree.lookup dir).bind id).any fun raw => digests.contains ("sha256:" ++ sha256Hex raw)

def prunable (digests : List String) (tree : SourceTree) (repo : Option String) : List Path :=
  (enumerateRecords tree repo).filter (archived sha256Hex digests tree)

/-! ## Removing -/

/-- `remove_dir_all`: the directory is there as long as its record is. -/
def removeDirAll (tree : SourceTree) (dir : Path) : Option SourceTree :=
  if (tree.lookup dir).isSome then some (tree.filter fun other _ => !dir.isPrefixOf other) else none

def removeAll : SourceTree → List Path → Bool × SourceTree
  | tree, [] => (true, tree)
  | tree, dir :: dirs =>
    match removeDirAll tree dir with
    | some tree' => removeAll tree' dirs
    | none => (false, tree)

/-- `prune-source --apply`. -/
def pruneSource (digests : List String) (tree : SourceTree) (repo : Option String) :
    Bool × SourceTree := removeAll tree (prunable sha256Hex digests tree repo)

/-- What is removed was archived and `migrate` selects it; all that is prunable is removed. -/
structure PruneExact (digests : List String) (tree : SourceTree) (repo : Option String) : Prop where
  archived : ∀ dir, (tree.lookup dir).isSome →
    (pruneSource sha256Hex digests tree repo).2.lookup dir = none →
    archived sha256Hex digests tree dir = true ∧ repo.all (projectMatchesRepo (dir.headD "")) = true
  succeeds : (pruneSource sha256Hex digests tree repo).1 = true
  removed : ∀ dir ∈ prunable sha256Hex digests tree repo, ∀ other, dir <+: other →
    (pruneSource sha256Hex digests tree repo).2.lookup other = none

end

/-! ## The order -/

theorem pathLe_total (a b : Path) : pathLe a b || pathLe b a := by
  induction a generalizing b with
  | nil => rfl
  | cons x a ih =>
    cases b with
    | nil => rfl
    | cons y b =>
      rw [pathLe, pathLe]
      by_cases hxy : x = y
      · rw [if_pos hxy, if_pos hxy.symm]
        exact ih b
      · rw [if_neg hxy, if_neg (Ne.symm hxy)]
        exact textLe_total x y

theorem pathLe_trans {c : Path} (h : pathLe a b) (h' : pathLe b c) : pathLe a c := by
  induction a generalizing b c with
  | nil => rfl
  | cons x a ih =>
    cases b with
    | nil => cases h
    | cons y b =>
      cases c with
      | nil => cases h'
      | cons z c =>
        rw [pathLe] at h h' ⊢
        by_cases hxy : x = y
        · subst hxy
          rw [if_pos rfl] at h
          by_cases hxz : x = z
          · rw [if_pos hxz] at h' ⊢
            exact ih h h'
          · rw [if_neg hxz] at h' ⊢
            exact h'
        · rw [if_neg hxy] at h
          by_cases hyz : y = z
          · rw [← hyz, if_neg hxy]
            exact h
          · rw [if_neg hyz] at h'
            by_cases hxz : x = z
            · subst hxz
              exact absurd (textLe_antisymm h h') hxy
            · rw [if_neg hxz]
              exact textLe_trans h h'

theorem pathLe_antisymm (h : pathLe a b) (h' : pathLe b a) : a = b := by
  induction a generalizing b with
  | nil =>
    cases b with
    | nil => rfl
    | cons => cases h'
  | cons x a ih =>
    cases b with
    | nil => cases h
    | cons y b =>
      rw [pathLe] at h h'
      by_cases hxy : x = y
      · subst hxy
        rw [if_pos rfl] at h h'
        rw [ih h h']
      · rw [if_neg hxy] at h
        rw [if_neg (Ne.symm hxy)] at h'
        exact absurd (textLe_antisymm h h') hxy

theorem recordLe_antisymm (h : recordLe a b) (h' : recordLe b a) : a = b :=
  List.append_cancel_right (pathLe_antisymm h h')

/-! ## Removing directories -/

variable {sha256Hex : Bytes → String} {digests : List String} {tree tree' : SourceTree}
  {repo : Option String}
  {dirs : List Path}

theorem lookup_removeDirAll (h : removeDirAll tree dir = some tree') (other : Path) :
    tree'.lookup other = if dir <+: other then none else tree.lookup other := by
  unfold removeDirAll at h
  split at h
  next =>
    cases h
    rw [Table.lookup_filter]
    by_cases hbelow : dir <+: other
    · rw [if_pos hbelow, List.isPrefixOf_iff_prefix.mpr hbelow]
      cases tree.lookup other <;> rfl
    · rw [if_neg hbelow, Bool.eq_false_iff.mpr fun hp => hbelow (List.isPrefixOf_iff_prefix.mp hp)]
      cases tree.lookup other <;> rfl
  next => cases h

theorem removeAll_succeeds (hthere : ∀ dir ∈ dirs, (tree.lookup dir).isSome) :
    (removeAll tree dirs).1 = true ↔ dirs.Pairwise fun a b => ¬ a <+: b := by
  induction dirs generalizing tree with
  | nil => simp [removeAll]
  | cons dir dirs ih =>
    obtain ⟨tree', hremove⟩ : ∃ tree', removeDirAll tree dir = some tree' := by
      unfold removeDirAll
      rw [if_pos (hthere dir List.mem_cons_self)]
      exact ⟨_, rfl⟩
    rw [removeAll, hremove, List.pairwise_cons]
    dsimp only
    by_cases hbelow : ∀ other ∈ dirs, ¬ dir <+: other
    · rw [ih fun other hother => ?_]
      · exact ⟨fun h => ⟨hbelow, h⟩, And.right⟩
      · rw [lookup_removeDirAll hremove, if_neg (hbelow other hother)]
        exact hthere other (List.mem_cons_of_mem _ hother)
    · refine ⟨fun h => ?_, fun h => absurd h.1 hbelow⟩
      push Not at hbelow
      obtain ⟨other, hother, hbelow⟩ := hbelow
      exfalso
      have hgone : ∀ (rest : List Path) (tree : SourceTree), tree.lookup other =
        none → other ∈ rest →
          (removeAll tree rest).1 = false := by
        intro rest
        induction rest with
        | nil => exact fun _ _ hmem => by cases hmem
        | cons first rest ihrest =>
          intro tree hnone hmem
          rw [removeAll]
          cases hfirst : removeDirAll tree first with
          | none => rfl
          | some tree' =>
            have hnone' : tree'.lookup other = none := by
              rw [lookup_removeDirAll hfirst, hnone, ite_self]
            rcases List.mem_cons.mp hmem with rfl | hmem
            · rw [removeDirAll, hnone] at hfirst
              cases hfirst
            · exact ihrest tree' hnone' hmem
      have hfalse := hgone dirs tree' (by rw [lookup_removeDirAll hremove, if_pos hbelow]) hother
      rw [hfalse] at h
      cases h

theorem lookup_removeAll (h : (removeAll tree dirs).1 = true) (other : Path) :
    (removeAll tree dirs).2.lookup other =
      if ∃ dir ∈ dirs, dir <+: other then none else tree.lookup other := by
  induction dirs generalizing tree with
  | nil => simp [removeAll]
  | cons dir dirs ih =>
    rw [removeAll] at h ⊢
    cases hremove : removeDirAll tree dir with
    | none =>
      rw [hremove] at h
      cases h
    | some tree' =>
      rw [hremove] at h
      dsimp only at h ⊢
      rw [ih h, lookup_removeDirAll hremove]
      by_cases hbelow : dir <+: other <;> simp [hbelow]

/-! ## Exactness -/

theorem mem_prunable : dir ∈ prunable sha256Hex digests tree repo ↔
    (tree.lookup dir).isSome ∧ 2 ≤ dir.length ∧ repo.all (repoMatches (dir.headD "")) = true ∧
      archived sha256Hex digests tree dir = true := by
  unfold prunable enumerateRecords
  rw [List.mem_filter, mem_sortBy, List.mem_filter]
  have hkeys : dir ∈ tree.entries.map (·.1) ↔ (tree.lookup dir).isSome := AList.lookup_isSome.symm
  rw [hkeys]
  simp [and_assoc]

theorem prunable_sorted : (prunable sha256Hex digests tree repo).Pairwise fun a b =>
    recordLe a b = true ∧ a ≠ b := by
  have hsorted := @pairwise_sortBy _ recordLe (fun a b => pathLe_total _ _)
    (fun h h' => pathLe_trans h h')
    ((tree.entries.map (·.1)).filter fun dir => 2 ≤ dir.length ∧
      repo.all (repoMatches (dir.headD "")))
  have hnodup : (enumerateRecords tree repo).Nodup :=
    (perm_sortBy recordLe _).nodup_iff.mpr (tree.nodupKeys.filter _)
  exact (hsorted.and hnodup).filter _

theorem headD_of_below {other : Path} (h : dir <+: other) (hne : 2 ≤ dir.length) :
    other.headD "" = dir.headD "" := by
  obtain ⟨rest, rfl⟩ := h
  cases dir with
  | nil => simp at hne
  | cons => rfl

/-- Of each prunable record `migrate` selects the project, and the records below it are archived and
come before it. -/
def PrunesAlone (sha256Hex : Bytes → String) (digests : List String) (tree : SourceTree)
    (repo : Option String) : Prop :=
  ∀ dir ∈ prunable sha256Hex digests tree repo,
    repo.all (projectMatchesRepo (dir.headD "")) = true ∧
    ∀ other, (tree.lookup other).isSome → dir <+: other → other ≠ dir →
      archived sha256Hex digests tree other = true ∧ recordLe other dir = true

theorem prune_exact_iff :
    PruneExact sha256Hex digests tree repo ↔ PrunesAlone sha256Hex digests tree repo := by
  have hthere : ∀ dir ∈ prunable sha256Hex digests tree repo, (tree.lookup dir).isSome :=
    fun dir hdir => (mem_prunable.mp hdir).1
  have hprunable : ∀ dir ∈ prunable sha256Hex digests tree repo, ∀ other,
    (tree.lookup other).isSome →
      dir <+: other → archived sha256Hex digests tree other = true →
        other ∈ prunable sha256Hex digests tree repo := by
    intro dir hdir other hother hbelow harchived
    obtain ⟨-, hlength, hrepo, -⟩ := mem_prunable.mp hdir
    exact mem_prunable.mpr ⟨hother, hlength.trans hbelow.length_le,
      by rwa [headD_of_below hbelow hlength], harchived⟩
  constructor
  · intro h dir hdir
    have hpairwise := (removeAll_succeeds hthere).mp h.succeeds
    refine ⟨(h.archived dir (hthere dir hdir) (h.removed dir hdir dir (List.prefix_refl _))).2,
      fun other hother hbelow hne => ?_⟩
    have harchived := (h.archived other hother (h.removed dir hdir other hbelow)).1
    refine ⟨harchived, ?_⟩
    have hmem := hprunable dir hdir other hother hbelow harchived
    have hboth := hpairwise.and prunable_sorted
    rcases List.pairwise_iff_getElem.mp hboth with hall
    obtain ⟨i, hi, rfl⟩ := List.getElem_of_mem hdir
    obtain ⟨j, hj, rfl⟩ := List.getElem_of_mem hmem
    rcases Nat.lt_trichotomy i j with hlt | rfl | hgt
    · exact absurd hbelow (hall i j hi hj hlt).1
    · exact absurd rfl hne
    · exact (hall j i hj hi hgt).2.1
  · intro h
    have hpairwise : (prunable sha256Hex digests tree repo).Pairwise fun a b => ¬ a <+: b := by
      refine prunable_sorted.imp_of_mem fun {a b} ha hb hab hbelow => ?_
      have hle := ((h a ha).2 b (hthere b hb) hbelow (Ne.symm hab.2)).2
      exact hab.2 (recordLe_antisymm hab.1 hle)
    have hok := (removeAll_succeeds hthere).mpr hpairwise
    refine ⟨fun dir hdir hgone => ?_, hok, fun dir hdir other hbelow => ?_⟩
    · unfold pruneSource at hgone
      rw [lookup_removeAll hok] at hgone
      split at hgone
      next hunder =>
        obtain ⟨top, htop, hbelow⟩ := hunder
        have hproject := headD_of_below hbelow (mem_prunable.mp htop).2.1
        rw [hproject]
        refine ⟨?_, (h top htop).1⟩
        by_cases hsame : dir = top
        · exact hsame ▸ (mem_prunable.mp htop).2.2.2
        · exact ((h top htop).2 dir hdir hbelow hsame).1
      next =>
        rw [hgone] at hdir
        cases hdir
    · unfold pruneSource
      rw [lookup_removeAll hok, if_pos ⟨dir, hdir, hbelow⟩]

/-- An unarchived record below an archived one. -/
theorem nested_record_lost : ¬ PruneExact (fun raw => if raw = [] then "00" else "ff") ["sha256:00"]
    ((AList.insert ["acme__app", "run"] (some []) (∅ : SourceTree)).insert
      ["acme__app", "run", "skill-usage"]
      (some [0x7b])) none := by
  intro h
  have hlost := h.archived ["acme__app", "run", "skill-usage"] (by decide) (by decide)
  exact absurd hlost.1 (by decide)

/-! ## Purging: the clone -/

/-- `evidence`, by the paths below it, and `catalog.json`. -/
structure Snapshot where
  evidence : Table Path Bytes
  catalog : Option Bytes

variable {index : Snapshot}

structure Clone where
  head : Snapshot
  index : Snapshot
  work : Snapshot

/-- What fails. A `git` command that fails changes nothing; a commit of nothing fails too. -/
structure Faults where
  /-- The removal of a host tree fails after these files are gone. -/
  removal : String → Option (Path → Bool)
  /-- The catalog cannot be regenerated, and this is what is left in its place. -/
  catalogLeft : Option (Option Bytes)
  add : Bool
  commit : Bool
  headSha : Bool
  reset : Bool
  checkoutEvidence : Bool
  checkoutCatalog : Bool
  clean : Bool

inductive PurgeStep
  | removal
  | catalog
  | add
  | commit
  | headSha

inductive PurgeError
  | failed (step : PurgeStep)
  | rollbackFailed

variable {faults : Faults} {regenerate : Table Path Bytes → Bytes} {scope : List String}
  {start : Snapshot}
  {clone clone' : Clone} {evidence : Table Path Bytes}

def ofHost (name : String) (path : Path) : Bool := path.head? = some name

def hasFiles (evidence : Table Path Bytes) (name : String) : Bool :=
  evidence.entries.any fun row => ofHost name row.1

/-- The loop over the host trees; whether it ends, and what is left. -/
def removeHosts (faults : Faults) : Table Path Bytes → List String → Bool × Table Path Bytes
  | evidence, [] => (true, evidence)
  | evidence, name :: names =>
    if hasFiles evidence name then
      match faults.removal name with
      | none => removeHosts faults (evidence.filter fun path _ => !ofHost name path) names
      | some gone => (false, evidence.filter fun path _ => !(ofHost name path && gone path))
    else removeHosts faults evidence names

/-- `commit_purge`, and the clone that it leaves. -/
def commitPurge (faults : Faults) (regenerate : Table Path Bytes → Bytes) (clone : Clone) :
    Option PurgeStep × Clone :=
  match faults.catalogLeft with
  | some left => (some .catalog, { clone with work := { clone.work with catalog := left } })
  | none =>
    let written :=
      { clone with work := { clone.work with catalog := some (regenerate clone.work.evidence) } }
    if faults.add then (some .add, written)
    else
      let staged := { written with index := written.work }
      if faults.commit then (some .commit, staged)
      else if faults.headSha then (some .headSha, { staged with head := staged.index })
      else (none, { staged with head := staged.index })

/-- The checkouts and the cleaning of `rollback_deletions`, with this index. -/
def restoreFrom (faults : Faults) (index : Snapshot) (clone : Clone) : Option Clone :=
  if faults.checkoutEvidence || index.evidence.entries.isEmpty then none
  else
    let restored := index.evidence ∪ clone.work.evidence
    let catalog :=
      if faults.checkoutCatalog || index.catalog.isNone then clone.work.catalog else index.catalog
    some {
      head := clone.head
      index := index
      work := if faults.clean then ⟨restored, catalog⟩
        else ⟨restored.filter fun path _ => (index.evidence.lookup path).isSome,
          if index.catalog.isNone then none else catalog⟩ }

/-- `rollback_deletions`. -/
def rollbackDeletions (faults : Faults) (clone : Clone) : Option Clone :=
  restoreFrom faults (if faults.reset then clone.index else clone.head) clone

/-- The part of `run` after the checks have passed, up to the push. -/
def runPurge (faults : Faults) (regenerate : Table Path Bytes → Bytes) (start : Snapshot)
    (scope : List String) :
    Option PurgeError × Clone :=
  let removed := removeHosts faults start.evidence scope
  let clone : Clone := ⟨start, start, { start with evidence := removed.2 }⟩
  if !removed.1 then (some (.failed .removal), clone)
  else
    match commitPurge faults regenerate clone with
    | (none, done) => (none, done)
    | (some step, left) =>
      match rollbackDeletions faults left with
      | none => (some .rollbackFailed, left)
      | some back => (some (.failed step), back)

def Same (a b : Snapshot) : Prop := (∀ path, a.evidence.lookup path = b.evidence.lookup path) ∧
    a.catalog = b.catalog

/-- The index and the working tree are as they were. -/
def Restored (start : Snapshot) (clone : Clone) : Prop := Same clone.index start ∧
    Same clone.work start

/-- The evidence of the hosts outside the scope. -/
def remaining (scope : List String) (evidence : Table Path Bytes) : Table Path Bytes :=
  evidence.filter fun path _ => !scope.any fun name => ofHost name path

/-- No host of the scope has files, and the catalog is up to date. -/
def NothingToPurge (regenerate : Table Path Bytes → Bytes) (start : Snapshot) (scope : List String) :
    Prop :=
  (∀ name ∈ scope, hasFiles start.evidence name = false) ∧
    some (regenerate start.evidence) = start.catalog

/-- The first host of the scope with files cannot be removed and keeps them all. -/
def NothingRemoved (faults : Faults) (evidence : Table Path Bytes) (scope : List String) : Prop :=
  ∃ name gone, scope.find? (hasFiles evidence) = some name ∧ faults.removal name = some gone ∧
    ∀ path, (evidence.lookup path).isSome → ofHost name path → gone path = false

/-- The catalog comes back: by its checkout, or by the cleaning if it is not committed. -/
def CatalogBack (faults : Faults) (start : Snapshot) (current : Option Bytes) : Prop :=
  current = start.catalog ∨
    (if start.catalog.isSome then faults.checkoutCatalog else faults.clean) = false

/-- The failure of a step leaves nothing that is not rolled back. -/
def Harmless (faults : Faults) (regenerate : Table Path Bytes → Bytes) (start : Snapshot)
    (scope : List String) :
    PurgeStep → Prop
  | .removal => NothingRemoved faults start.evidence scope
  | .catalog => CatalogBack faults start (faults.catalogLeft.getD none)
  | .add => CatalogBack faults start (some (regenerate (remaining scope start.evidence)))
  | .commit => NothingToPurge regenerate start scope ∨
      faults.reset = false ∧
        CatalogBack faults start (some (regenerate (remaining scope start.evidence)))
  | .headSha => NothingToPurge regenerate start scope

/-! ## The rollback -/

theorem removeHosts_sub (names : List String) (path : Path) :
    (removeHosts faults evidence names).2.lookup path = none ∨
      (removeHosts faults evidence names).2.lookup path = evidence.lookup path := by
  induction names generalizing evidence with
  | nil => exact .inr rfl
  | cons name names ih =>
    have hfilter : ∀ keep : Path → Bool,
        (evidence.filter fun path _ => keep path).lookup path = none ∨
        (evidence.filter fun path _ => keep path).lookup path = evidence.lookup path := by
      intro keep
      rw [Table.lookup_filter]
      cases evidence.lookup path with
      | none => exact .inl rfl
      | some bytes => cases keep path <;> simp [Option.filter]
    rw [removeHosts]
    split
    · cases faults.removal name with
      | none =>
        rcases @ih (evidence.filter fun path _ => !ofHost name path) with h | h
        · exact .inl h
        · rcases hfilter fun path => !ofHost name path with hnone | hsame
          · exact .inl (h.trans hnone)
          · exact .inr (h.trans hsame)
      | some gone => exact hfilter fun path => !(ofHost name path && gone path)
    · exact ih

theorem lookup_overlay (above below : Table Path Bytes) (path : Path) :
    (above ∪ below).lookup path = (above.lookup path).or (below.lookup path) := by
  cases habove : above.lookup path with
  | none =>
    rw [AList.lookup_union_right (AList.lookup_eq_none.mp habove)]
    rfl
  | some bytes =>
    rw [AList.lookup_union_left (AList.lookup_isSome.mp (by rw [habove]; rfl)), habove]
    rfl

theorem restoreFrom_index (h : restoreFrom faults index clone = some clone') :
    clone'.index = index := by
  unfold restoreFrom at h
  split at h
  · cases h
  · cases h
    rfl

theorem restored_of_index (h : restoreFrom faults index clone = some clone')
    (hindex : Same index start) (hsub : ∀ path, clone.work.evidence.lookup path = none ∨
      clone.work.evidence.lookup path = start.evidence.lookup path) :
    Restored start clone' ↔ CatalogBack faults start clone.work.catalog := by
  unfold restoreFrom at h
  split at h
  next => cases h
  next =>
    cases h
    have hunion : ∀ path, (index.evidence ∪ clone.work.evidence).lookup path =
      start.evidence.lookup path := by
      intro path
      rw [lookup_overlay, hindex.1]
      cases hstart : start.evidence.lookup path with
      | some bytes => rfl
      | none =>
        rcases hsub path with hnone | hsame
        · rw [hnone]
          rfl
        · rw [hsame, hstart]
          rfl
    have hfilter : ∀ path, ((index.evidence ∪ clone.work.evidence).filter
        fun path _ => (start.evidence.lookup path).isSome).lookup path =
          start.evidence.lookup path := by
      intro path
      rw [Table.lookup_filter, hunion]
      cases start.evidence.lookup path <;> rfl
    unfold Restored CatalogBack Same
    simp only [hindex.1, hindex.2, implies_true, and_self, true_and]
    cases hclean : faults.clean <;> cases hcheckout : faults.checkoutCatalog <;>
      cases hcatalog : start.catalog <;> simp [hunion, hfilter]

theorem remaining_eq_self_iff :
    remaining scope evidence = evidence ↔ ∀ name ∈ scope, hasFiles evidence name = false := by
  have hentries : remaining scope evidence = evidence ↔
      (remaining scope evidence).entries = evidence.entries :=
    ⟨congrArg AList.entries, AList.ext⟩
  rw [hentries, remaining, Table.filter, List.filter_eq_self]
  simp only [hasFiles, Bool.not_eq_true', List.any_eq_false]
  exact ⟨fun h name hname row hrow => h row hrow name hname,
    fun h row hrow name hname => h name hname row hrow⟩

/-- A loop that ends has removed the hosts of the scope. -/
theorem removeHosts_ok (h : (removeHosts faults evidence scope).1 = true) :
    (removeHosts faults evidence scope).2 = remaining scope evidence := by
  induction scope generalizing evidence with
  | nil => exact (remaining_eq_self_iff.mpr fun _ hname => absurd hname List.not_mem_nil).symm
  | cons name names ih =>
    have hcons : remaining names (evidence.filter fun path _ => !ofHost name path) =
        remaining (name :: names) evidence := by
      refine AList.ext ?_
      simp only [remaining, Table.filter, List.filter_filter, List.any_cons, Bool.not_or,
        Bool.and_comm]
    rw [removeHosts] at h ⊢
    split at h
    next hfiles =>
      rw [if_pos hfiles]
      cases hremoval : faults.removal name with
      | some gone => simp [hremoval] at h
      | none =>
        simp only [hremoval] at h ⊢
        rw [ih h, hcons]
    next hfiles =>
      have hself : (evidence.filter fun path _ => !ofHost name path) = evidence := by
        refine AList.ext (List.filter_eq_self.mpr fun row hrow => ?_)
        rw [hasFiles, List.any_eq_true] at hfiles
        simpa using fun hhost => hfiles ⟨row, hrow, hhost⟩
      rw [if_neg hfiles, ih h, ← hcons, hself]

theorem same_remaining_iff : Same ⟨remaining scope start.evidence,
      some (regenerate (remaining scope start.evidence))⟩ start ↔
    NothingToPurge regenerate start scope := by
  constructor
  · rintro ⟨hevidence, hcatalog⟩
    have hfiles : ∀ name ∈ scope, hasFiles start.evidence name = false := by
      intro name hname
      rw [hasFiles, List.any_eq_false]
      intro row hrow hhost
      have hlost := hevidence row.1
      rw [remaining, Table.lookup_filter, Table.lookup_eq_some_iff.mpr hrow] at hlost
      have hany : (scope.any fun name => ofHost name row.1) = true :=
        List.any_eq_true.mpr ⟨name, hname, hhost⟩
      simp [hany] at hlost
    rw [remaining_eq_self_iff.mpr hfiles] at hcatalog
    exact ⟨hfiles, hcatalog⟩
  · rintro ⟨hfiles, hcatalog⟩
    rw [remaining_eq_self_iff.mpr hfiles]
    exact ⟨fun _ => rfl, hcatalog⟩

theorem removal_kept_iff (h : (removeHosts faults evidence scope).1 = false) :
    (∀ path, (removeHosts faults evidence scope).2.lookup path = evidence.lookup path) ↔
      NothingRemoved faults evidence scope := by
  induction scope generalizing evidence with
  | nil => cases h
  | cons name names ih =>
    rw [removeHosts] at h ⊢
    split at h
    next hfiles =>
      rw [if_pos hfiles]
      have hfind : (name :: names).find? (hasFiles evidence) = some name :=
        List.find?_cons_of_pos hfiles
      unfold NothingRemoved
      rw [hfind]
      cases hremoval : faults.removal name with
      | none =>
        refine ⟨fun hsame => ?_, ?_⟩
        · -- the files of the first host are gone
          obtain ⟨row, hrow, hhost⟩ := List.any_eq_true.mp hfiles
          have hlost := hsame row.1
          have hnone : (evidence.filter fun path _ => !ofHost name path).lookup row.1 = none := by
            rw [Table.lookup_filter, Table.lookup_eq_some_iff.mpr hrow]
            simp [hhost]
          rw [Table.lookup_eq_some_iff.mpr hrow] at hlost
          rcases @removeHosts_sub faults _ names row.1 with hgone | hgone
          · cases hlost.symm.trans hgone
          · cases hlost.symm.trans (hgone.trans hnone)
        · rintro ⟨other, gone, hname, hgone, -⟩
          cases hname
          cases hremoval.symm.trans hgone
      | some gone =>
        have hkept : ∀ path, (evidence.filter fun path _ => !(ofHost name path && gone path)).lookup path =
            evidence.lookup path ↔
              ((evidence.lookup path).isSome → ofHost name path → gone path = false) := by
          intro path
          rw [Table.lookup_filter]
          cases evidence.lookup path <;> cases ofHost name path <;> cases gone path <;> simp
        refine (forall_congr' hkept).trans ⟨fun hall => ⟨name, gone, rfl, hremoval, hall⟩, ?_⟩
        rintro ⟨other, gone', hname, hgone, hall⟩
        cases hname
        cases hremoval.symm.trans hgone
        exact hall
    next hfiles =>
      rw [if_neg hfiles, ih h, NothingRemoved, NothingRemoved, List.find?_cons_of_neg hfiles]

/-- After a failed step the index and the working tree are as they were just when the failure is
harmless. -/
theorem restored_iff {step : PurgeStep}
    (h : runPurge faults regenerate start scope = (some (.failed step), clone)) :
    Restored start clone ↔ Harmless faults regenerate start scope step := by
  have hrefl : Same start start := ⟨fun _ => rfl, rfl⟩
  have hsub : ∀ path, (removeHosts faults start.evidence scope).2.lookup path = none ∨
      (removeHosts faults start.evidence scope).2.lookup path = start.evidence.lookup path :=
        removeHosts_sub scope
  unfold runPurge commitPurge rollbackDeletions at h
  dsimp only at h
  cases hremoved : (removeHosts faults start.evidence scope).1 with
  | false =>
    rw [hremoved] at h
    cases h
    rw [Harmless, ← removal_kept_iff hremoved]
    exact ⟨fun hback => hback.2.1, fun hnone => ⟨hrefl, hnone, rfl⟩⟩
  | true =>
    rw [hremoved] at h
    cases hleft : faults.catalogLeft with
    | some left =>
      rw [hleft] at h
      simp only [Bool.not_true, Bool.false_eq_true, if_false, ite_self] at h
      split at h
      · cases h
      next back hback =>
        cases h
        rw [restored_of_index hback hrefl hsub]
        simp [Harmless, hleft]
    | none =>
      rw [hleft] at h
      rw [removeHosts_ok hremoved] at h hsub
      dsimp only at h
      let staged : Snapshot := ⟨remaining scope start.evidence,
        some (regenerate (remaining scope start.evidence))⟩
      cases hadd : faults.add with
      | true =>
        simp only [hadd, Bool.not_true, Bool.false_eq_true, if_false, if_true, ite_self] at h
        split at h
        · cases h
        next back hback =>
          cases h
          exact restored_of_index hback hrefl hsub
      | false =>
        have hother : ∀ {index : Snapshot} {clone clone' : Clone},
          restoreFrom faults index clone = some clone' →
            clone.work = staged → index = staged →
            (Restored start clone' ↔ NothingToPurge regenerate start scope) := by
          intro index clone clone' hback hwork hindex
          rw [← same_remaining_iff]
          have hkept := restoreFrom_index hback
          refine ⟨fun hrestored => ?_, fun hsame => ?_⟩
          · have hsame := hrestored.1
            rw [hkept, hindex] at hsame
            exact hsame
          · refine (restored_of_index hback (hindex ▸ hsame) (hwork ▸ hsub)).mpr (.inl ?_)
            rw [hwork]
            exact hsame.2
        cases hcommit : faults.commit with
        | true =>
          simp only [hadd, hcommit, Bool.not_true, Bool.false_eq_true, if_false, if_true] at h
          split at h
          · cases h
          next back hback =>
            cases h
            cases hreset : faults.reset with
            | true =>
              rw [hreset, if_pos rfl] at hback
              simp [Harmless, hreset, hother hback rfl rfl]
            | false =>
              rw [hreset, if_neg (by decide)] at hback
              rw [restored_of_index hback hrefl hsub]
              simp only [Harmless, hreset, true_and]
              exact ⟨.inr, fun h => h.elim (fun hnone => .inl (same_remaining_iff.mpr hnone).2) id⟩
        | false =>
          cases hsha : faults.headSha with
          | false => simp [hadd, hcommit, hsha] at h
          | true =>
            simp only [hadd, hcommit, hsha, Bool.not_true, Bool.false_eq_true, if_false,
              if_true, ite_self] at h
            split at h
            · cases h
            next back hback =>
              cases h
              exact hother hback rfl rfl

theorem commit_rolled_back : ∃ clone, runPurge
      ⟨fun _ => none, none, false, true, false, false, false, false, false⟩ (fun _ => [])
      ⟨AList.insert ["github.com", "a"] [] ∅, some [0x7b]⟩ ["github.com"] =
        (some (.failed .commit), clone) ∧
    Restored ⟨AList.insert ["github.com", "a"] [] ∅, some [0x7b]⟩ clone := by
  obtain ⟨clone, hrun⟩ : ∃ clone, runPurge
      ⟨fun _ => none, none, false, true, false, false, false, false, false⟩ (fun _ => [])
      ⟨AList.insert ["github.com", "a"] [] ∅, some [0x7b]⟩ ["github.com"] =
        (some (.failed .commit), clone) :=
    ⟨_, rfl⟩
  refine ⟨clone, hrun, (restored_iff hrun).mpr ?_⟩
  exact Or.inr ⟨rfl, Or.inr rfl⟩

/-- The second of two host trees cannot be removed: the first one stays away. -/
theorem removal_not_restored : ∃ clone, runPurge
      ⟨fun name => if name = "gitlab.com" then some fun _ => false else none, none, false,
        false, false, false,
        false, false, false⟩ (fun _ => [])
      ⟨(AList.insert ["github.com", "a"] [] ∅).insert ["gitlab.com", "b"] [], none⟩
      ["github.com", "gitlab.com"] = (some (.failed .removal), clone) ∧
    ¬ Restored ⟨(AList.insert ["github.com", "a"] [] ∅).insert ["gitlab.com", "b"] [], none⟩
      clone := by
  refine ⟨_, rfl, fun h => ?_⟩
  have hlost := h.2.1 ["github.com", "a"]
  exact absurd hlost (by decide)

end NilsCli.Evidence
