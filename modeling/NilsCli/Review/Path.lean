import Mathlib.Data.List.Chain
import NilsCli.Review.Reads

/-!
# One lineage

An accepted ledger is one path of linked records (`ledger_lineage`).
-/

namespace NilsCli.Review

open Lib List

section
variable {State Receipt : Type}
  {byDigest chain ordered : List (ReviewStateRecord State Receipt)}
  {record sibling : ReviewStateRecord State Receipt} {key key' : String}

/-! ## Records below a record -/

def Child (byDigest : List (ReviewStateRecord State Receipt)) (key key' : String) : Prop :=
  ∃ record ∈ byDigest, record.previousDigest = some key ∧ record.recordDigest = key'

/-- The one digest is the other or hangs below it. -/
def Under (byDigest : List (ReviewStateRecord State Receipt)) : String → String → Prop :=
  Relation.ReflTransGen (Child byDigest)

theorem mem_children {previous : Option String} :
    record ∈ children byDigest previous ↔ record ∈ byDigest ∧ record.previousDigest = previous := by
  rw [children, mem_filter, decide_eq_true_eq]

theorem child_iff : Child byDigest key key' ↔
    key' ∈ (children byDigest (some key)).map (·.recordDigest) := by
  simp only [Child, mem_map, mem_children, and_assoc]

variable {keys ignored : List String} {fuel : Nat}

/-- Nothing is ignored that does not hang below the keys. -/
theorem mem_ignoreStale (h : key ∈ ignoreStale byDigest fuel keys ignored) :
    key ∈ ignored ∨ ∃ start ∈ keys, Under byDigest start key := by
  induction fuel generalizing keys ignored with
  | zero => exact .inl h
  | succ fuel ih =>
    cases keys with
    | nil => exact .inl h
    | cons first keys =>
      unfold ignoreStale at h
      split at h
      · rcases ih h with hold | ⟨start, hstart, hunder⟩
        · exact .inl hold
        · exact .inr ⟨start, mem_cons_of_mem _ hstart, hunder⟩
      · rcases ih h with hold | ⟨start, hstart, hunder⟩
        · rcases List.mem_append.mp hold with hold | hfirst
          · exact .inl hold
          · exact .inr ⟨first, mem_cons_self, List.mem_singleton.mp hfirst ▸ .refl⟩
        · rcases List.mem_append.mp hstart with hchild | hstart
          · exact .inr ⟨first, mem_cons_self, .head (child_iff.mpr hchild) hunder⟩
          · exact .inr ⟨start, mem_cons_of_mem _ hstart, hunder⟩

theorem ignoreStale_nodup (h : ignored.Nodup) :
    (ignoreStale byDigest fuel keys ignored).Nodup := by
  induction fuel generalizing keys ignored with
  | zero => exact h
  | succ fuel ih =>
    cases keys with
    | nil => exact h
    | cons first keys =>
      unfold ignoreStale
      split
      · exact ih h
      · rename_i hfirst
        refine ih (List.nodup_append.mpr ⟨h, nodup_singleton first, ?_⟩)
        rintro key hkey _ hlast rfl
        exact hfirst (List.mem_singleton.mp hlast ▸ hkey)

theorem indexRecords_nodup [DecidableEq State] [DecidableEq Receipt] {host : Host State Receipt}
    {known records : List (ReviewStateRecord State Receipt)}
    (h : indexRecords host known records = .ok byDigest)
    (hknown : (known.map (·.recordDigest)).Nodup) : (byDigest.map (·.recordDigest)).Nodup := by
  induction records generalizing known with
  | nil =>
    cases h
    exact hknown
  | cons first records ih =>
    unfold indexRecords at h
    rw [bind_eq_ok] at h
    obtain ⟨-, -, h⟩ := h
    split at h
    next existing hfind =>
      rw [ensure_bind_ok] at h
      exact ih h.2 hknown
    next hfind =>
      refine ih h ?_
      rw [map_append, nodup_append]
      refine ⟨hknown, nodup_singleton _, ?_⟩
      rintro key hkey _ hlast rfl
      obtain ⟨existing, hexisting, hsame⟩ := List.mem_map.mp hkey
      have hfirst : existing.recordDigest = first.recordDigest := by
        rw [hsame]
        simpa using hlast
      simpa [hfirst] using List.find?_eq_none.mp hfind existing hexisting

theorem eq_of_digest (hdigests : (byDigest.map (·.recordDigest)).Nodup)
    {other : ReviewStateRecord State Receipt} (hrecord : record ∈ byDigest)
    (hother : other ∈ byDigest) (h : record.recordDigest = other.recordDigest) : record = other :=
  inj_on_of_nodup_map hdigests hrecord hother h

/-! ## The path -/

variable {host : Host State Receipt} [DecidableEq State] [DecidableEq Receipt]
  {ignored' : List String}

/-- Each record names the one before it. -/
def Follows (record next : ReviewStateRecord State Receipt) : Prop :=
  next.previousDigest = some record.recordDigest

theorem Descends.linked (h : Descends host byDigest ordered record chain) :
    ∃ rest, chain = ordered ++ record :: rest ∧ (record :: rest).IsChain Follows ∧
      ∀ next ∈ rest, next ∈ byDigest := by
  induction h with
  | tip => exact ⟨[], rfl, .singleton _, fun _ h => by cases h⟩
  | @next _ _ _ _ following _ hnext _ ih =>
    obtain ⟨rest, rfl, hlinked, hmem⟩ := ih
    have hfollowing := mem_children.mp (nextRecord_mem hnext)
    refine ⟨following :: rest, by simp, .cons_cons hfollowing.2 hlinked, fun next hmemNext => ?_⟩
    rcases List.mem_cons.mp hmemNext with rfl | hmemNext
    · exact hfollowing.1
    · exact hmem next hmemNext

def Lost (byDigest chain : List (ReviewStateRecord State Receipt)) (key : String) : Prop :=
  ∃ before record winner after sibling active,
    chain = before ++ record :: winner :: after ∧
      sibling ∈ children byDigest (some record.recordDigest) ∧ sibling ≠ winner ∧
      latest (before ++ [record]) = some active ∧
      (children byDigest (some record.recordDigest)).filter
        (winsFork active (active.assignmentGeneration + 1)) = [winner] ∧
      Under byDigest sibling.recordDigest key

theorem walk_ignored (h : walk host byDigest fuel ordered ignored record = .ok (chain, ignored'))
    (hignored : ignored.Nodup) :
    ignored'.Nodup ∧ ∀ key ∈ ignored', key ∈ ignored ∨ Lost byDigest chain key := by
  induction fuel generalizing ordered ignored record with
  | zero => cases h
  | succ fuel ih =>
    unfold walk at h
    rw [bind_eq_ok] at h
    obtain ⟨⟨⟩, -, h⟩ := h
    rw [bind_eq_ok] at h
    obtain ⟨following, hnext, h⟩ := h
    cases following with
    | none =>
      cases h
      exact ⟨hignored, fun key hkey => .inl hkey⟩
    | some sides =>
      obtain ⟨following, stale⟩ := sides
      obtain ⟨hnodup, hlost⟩ := ih h (ignoreStale_nodup hignored)
      refine ⟨hnodup, fun key hkey => ?_⟩
      rcases hlost key hkey with hkey | hlost
      · rcases mem_ignoreStale hkey with hold | ⟨start, hstart, hunder⟩
        · exact .inl hold
        · obtain ⟨sibling, hsibling, rfl⟩ := List.mem_map.mp hstart
          refine .inr ?_
          obtain ⟨rest, rfl, -⟩ := (walk_ok h).linked
          have hfork : resolveFork (ordered ++ [record])
              (children byDigest (some record.recordDigest)) = .ok (following, stale) := by
            unfold nextRecord at hnext
            split at hnext
            next => cases hnext
            next =>
              cases hnext
              cases hsibling
            next =>
              cases hsides : resolveFork (ordered ++ [record])
                  (children byDigest (some record.recordDigest)) with
              | error e => rw [hsides] at hnext; cases hnext
              | ok sides =>
                rw [hsides] at hnext
                cases hnext
                rfl
          obtain ⟨hstale, active, hactive, hwinners, -⟩ := resolveFork_winner hfork
          rw [hstale, mem_filter] at hsibling
          exact ⟨ordered, record, following, rest, sibling, active, by simp, hsibling.1,
            by simpa using hsibling.2, hactive, hwinners, hunder⟩
      · exact .inr hlost

omit [DecidableEq State] [DecidableEq Receipt] in
theorem predecessor_mem (hchain : chain.IsChain Follows) {root : ReviewStateRecord State Receipt}
    (hroot : chain.head? = some root) (hfirst : root.previousDigest = none)
    (hmem : record ∈ chain) {previous : String} (hprevious : record.previousDigest = some previous) :
    ∃ before old after, chain = before ++ old :: record :: after ∧ old.recordDigest = previous := by
  obtain ⟨before, after, rfl⟩ := List.append_of_mem hmem
  rcases eq_nil_or_concat before with rfl | ⟨before, old, rfl⟩
  · cases hroot
    rw [hfirst] at hprevious
    cases hprevious
  · rw [concat_eq_append, append_assoc] at hchain ⊢
    rw [singleton_append, isChain_append_cons_cons] at hchain
    have hlink := hchain.2.1
    exact ⟨before, old, after, rfl, Option.some.inj (hlink.symm.trans hprevious)⟩

omit [DecidableEq State] [DecidableEq Receipt] in
theorem Lost.not_mem (hlost : Lost byDigest chain key)
    (hdigests : (byDigest.map (·.recordDigest)).Nodup) (hsub : ∀ r ∈ chain, r ∈ byDigest)
    (hadmitted : Admitted host chain) (hchain : chain.IsChain Follows)
    {root : ReviewStateRecord State Receipt} (hroot : chain.head? = some root)
    (hfirst : root.previousDigest = none) : key ∉ chain.map (·.recordDigest) := by
  obtain ⟨before, record, winner, after, sibling, active, hsplit, hsibling, hne, -, -, hunder⟩ :=
    hlost
  induction hunder with
  | refl =>
    intro hkey
    obtain ⟨other, hother, hsame⟩ := List.mem_map.mp hkey
    have hmem := mem_children.mp hsibling
    obtain rfl := eq_of_digest hdigests (hsub other hother) hmem.1 hsame
    obtain ⟨before', old, after', hsplit', hold⟩ :=
      predecessor_mem hchain hroot hfirst hother hmem.2
    have hrecord : record ∈ chain := by rw [hsplit]; simp
    have hold' : old ∈ chain := by rw [hsplit']; simp
    obtain rfl := eq_of_digest hdigests (hsub old hold') (hsub record hrecord) hold
    -- the record has one place in the chain, so what follows it is one and the same
    have hplace := (hsplit ▸ hadmitted).generation
    have hplace' := (hsplit' ▸ hadmitted).generation
    rw [hsplit] at hsplit'
    have hrest := (append_inj hsplit' (hplace.symm.trans hplace')).2
    simp only [List.cons.injEq, true_and] at hrest
    exact hne hrest.1.symm
  | tail _ hchild ih =>
    intro hkey
    obtain ⟨child, hchildMem, hprevious, rfl⟩ := hchild
    obtain ⟨other, hother, hsame⟩ := List.mem_map.mp hkey
    obtain rfl := eq_of_digest hdigests (hsub other hother) hchildMem hsame
    obtain ⟨before', old, after', hsplit', hold⟩ :=
      predecessor_mem hchain hroot hfirst hother hprevious
    refine ih (List.mem_map.mpr ⟨old, ?_, hold⟩)
    rw [hsplit']
    simp

omit [DecidableEq State] [DecidableEq Receipt] in
theorem Lost.mem (hlost : Lost byDigest chain key) : key ∈ byDigest.map (·.recordDigest) := by
  obtain ⟨_, _, _, _, sibling, _, _, hsibling, -, -, -, hunder⟩ := hlost
  cases hunder with
  | refl => exact mem_map_of_mem (mem_children.mp hsibling).1
  | tail _ hchild =>
    obtain ⟨child, hmem, -, rfl⟩ := hchild
    exact mem_map_of_mem hmem

/-! ## Ownership -/

def LegalOwnership (active : Option ReviewHandoff) (record : ReviewStateRecord State Receipt) :
    Prop :=
  match record.handoff, active with
  | some handoff, none =>
    handoff.assignmentGeneration = 1 ∧ record.assignmentGeneration = some 1 ∧
      ¬ handoff.surrendered ∧ handoff.returnedReason = none
  | some handoff, some old =>
    record.assignmentGeneration = some handoff.assignmentGeneration ∧
      (handoff.assignmentGeneration = old.assignmentGeneration ∧ handoff.surrendered ∧
          ¬ old.surrendered ∧ old.returnedReason = none ∧
          handoff.reviewerDigest = old.reviewerDigest ∨
        handoff.assignmentGeneration = old.assignmentGeneration + 1 ∧
          (handoff.returnedReason.isSome ∨ old.surrendered ∨ old.returnedReason.isSome ∨
            validScopeRefresh old handoff)) ∧
      (handoff.coordinatorDigest = old.coordinatorDigest ∨ validCoordinatorTransfer old handoff)
  | none, some handoff =>
    record.assignmentGeneration = some handoff.assignmentGeneration ∧ ¬ handoff.surrendered ∧
      handoff.returnedReason = none
  | none, none => record.assignmentGeneration = none

omit [DecidableEq State] [DecidableEq Receipt] in
theorem checkTransition_legal {old handoff : ReviewHandoff} (hhandoff : record.handoff = some handoff)
    (h : checkTransition record old handoff = .ok ()) : LegalOwnership (some old) record := by
  rw [LegalOwnership.eq_def, hhandoff]
  unfold checkTransition at h
  rw [orErr_bind_ok] at h
  obtain ⟨nextGeneration, hnext, h⟩ := h
  cases eq_of_checkedSucc hnext
  have hrules := ensure_eq_ok.mp h
  simp only [decide_eq_true_eq, not_or, not_and, not_not] at hrules
  obtain ⟨htransfer, hstep, hsame, hgrown, hrecord⟩ := hrules
  refine ⟨hrecord, ?_, ?_⟩
  · by_cases heq : handoff.assignmentGeneration = old.assignmentGeneration
    · obtain ⟨hsurrendered, hold, hreturned, hreviewer, -, -⟩ := hsame heq
      exact .inl ⟨heq, hsurrendered, hold, by simpa using hreturned, hreviewer⟩
    · refine .inr ⟨hstep heq, ?_⟩
      have hcases := hgrown (hstep heq)
      by_contra hnone
      simp only [not_or] at hnone
      obtain ⟨hreason, hold, hreturned, hscope⟩ := hnone
      exact hscope (hcases (by simpa using hreason) hold (by simpa using hreturned))
  · by_cases heq : handoff.coordinatorDigest = old.coordinatorDigest
    · exact .inl heq
    · exact .inr (htransfer (.inl heq))

omit [DecidableEq State] [DecidableEq Receipt] in
theorem checkOwnership_legal {active : Option ReviewHandoff}
    (h : checkOwnership active record = .ok ()) : LegalOwnership active record := by
  unfold checkOwnership at h
  cases hhandoff : record.handoff with
  | some handoff =>
    rw [hhandoff] at h
    cases active with
    | none =>
      obtain ⟨hgeneration, hsurrendered, hreturned, -, hrecord⟩ := ensure_eq_ok.mp h
      rw [LegalOwnership.eq_def, hhandoff]
      exact ⟨hgeneration, hrecord, hsurrendered, hreturned⟩
    | some old => exact checkTransition_legal hhandoff h
  | none =>
    rw [hhandoff] at h
    rw [LegalOwnership.eq_def, hhandoff]
    cases active with
    | none => exact ensure_eq_ok.mp h
    | some old => exact ensure_eq_ok.mp h

/-! ## Accepted ledgers -/

variable {records : List (ReviewStateRecord State Receipt)}
  {root : ReviewStateRecord State Receipt}

theorem checkRecord_of_mem {known : List (ReviewStateRecord State Receipt)}
    (h : indexRecords host known records = .ok byDigest)
    (hknown : ∀ record ∈ known, checkRecord host record = .ok ()) (hmem : record ∈ byDigest) :
    checkRecord host record = .ok () := by
  induction records generalizing known with
  | nil =>
    cases h
    exact hknown record hmem
  | cons first records ih =>
    unfold indexRecords at h
    rw [bind_eq_ok] at h
    obtain ⟨⟨⟩, hfirst, h⟩ := h
    split at h
    next existing hfind =>
      rw [ensure_bind_ok] at h
      exact ih h.2 hknown
    next =>
      refine ih h fun other hother => ?_
      rcases List.mem_append.mp hother with hother | hother
      · exact hknown other hother
      · rw [List.mem_singleton.mp hother]
        exact hfirst

omit [DecidableEq State] [DecidableEq Receipt] in
theorem digest_of_checkRecord (h : checkRecord host record = .ok ()) :
    computeDigest host record.toReviewStatePreimage = record.recordDigest := by
  unfold checkRecord at h
  rw [ensure_bind_ok] at h
  exact h.1.2

/-- The walk has every record, or has passed it over. -/
theorem walk_reaches (hdigests : (byDigest.map (·.recordDigest)).Nodup)
    (hroot : children byDigest none = [root])
    (h : walk host byDigest fuel [] [] root = .ok (chain, ignored'))
    (hcount : chain.length + ignored'.length = byDigest.length) (hmem : record ∈ byDigest) :
    record ∈ chain ∨ Lost byDigest chain record.recordDigest := by
  have hrootMem : root ∈ byDigest ∧ root.previousDigest = none := by
    rw [← mem_children, hroot]
    exact mem_singleton_self _
  have hadmitted := (walk_ok h).admitted .nil
  obtain ⟨rest, hchain, hlinked, hrest⟩ := (walk_ok h).linked
  obtain ⟨hnodup, hlost⟩ := walk_ignored h nodup_nil
  rw [nil_append] at hchain
  have hsub : ∀ other ∈ chain, other ∈ byDigest := by
    rw [hchain]
    intro other hother
    rcases List.mem_cons.mp hother with rfl | hother
    · exact hrootMem.1
    · exact hrest other hother
  have hlost : ∀ key ∈ ignored', Lost byDigest chain key := by
    intro key hkey
    rcases hlost key hkey with hnone | hlost
    · cases hnone
    · exact hlost
  -- visited and passed over, the digests are as many as there are, and all distinct
  have hvisited : (chain.map (·.recordDigest)).Nodup := by
    refine List.Nodup.map_on ?_ hadmitted.nodup
    intro other hother another hanother hsame
    exact eq_of_digest hdigests (hsub other hother) (hsub another hanother) hsame
  have hall : (chain.map (·.recordDigest) ++ ignored').Nodup := by
    refine List.nodup_append.mpr ⟨hvisited, hnodup, ?_⟩
    rintro key hkey _ hignored rfl
    exact (hlost key hignored).not_mem hdigests hsub hadmitted (hchain ▸ hlinked) (by rw [hchain]; rfl)
      hrootMem.2 hkey
  have hwithin : chain.map (·.recordDigest) ++ ignored' ⊆ byDigest.map (·.recordDigest) := by
    refine List.append_subset.mpr ⟨map_subset _ hsub, fun key hkey => (hlost key hkey).mem⟩
  have hperm := (subperm_of_subset hall hwithin).perm_of_length_le (by simp [hcount])
  have hkey := hperm.mem_iff.mpr (mem_map_of_mem hmem)
  rcases List.mem_append.mp hkey with hkey | hkey
  · obtain ⟨other, hother, hsame⟩ := List.mem_map.mp hkey
    exact .inl (eq_of_digest hdigests (hsub other hother) hmem hsame ▸ hother)
  · exact .inr (hlost _ hkey)

structure Lineage (host : Host State Receipt) (records : List (ReviewStateRecord State Receipt))
    (read : ReviewStateChain State Receipt) : Prop where
  /-- The digest of every record is that of its text. -/
  digest : ∀ record ∈ records,
    computeDigest host record.toReviewStatePreimage = record.recordDigest
  /-- One digest stands for one record. -/
  digests : (records.map (·.recordDigest)).Nodup
  sub : ∀ record ∈ read.records, record ∈ records
  /-- The path starts at the only record without a predecessor. -/
  root : ∃ root, read.records.head? = some root ∧
    ∀ record ∈ records, record.previousDigest = none ↔ record = root
  /-- Every record has its place, names the record before it, and may follow what owns the review
  there. -/
  linked : ∀ before record after, read.records = before ++ record :: after →
    record.generation = before.length ∧
      record.previousDigest = before.getLast?.map (·.recordDigest) ∧
      LegalOwnership (latest before) record
  tip : read.tipDigest = read.records.getLast?.map (·.recordDigest)
  /-- Every other record hangs below a sibling that lost a fork of the path. -/
  reached : ∀ record ∈ records, record ∈ read.records ∨
    Lost records read.records record.recordDigest
  ignored : ∀ key ∈ read.ignoredStaleRecords, Lost records read.records key

theorem walk_lineage {records : List (ReviewStateRecord State Receipt)}
    (hindex : indexRecords host [] records = .ok byDigest) (hroot : children byDigest none = [root])
    (h : walk host byDigest fuel [] [] root = .ok (chain, ignored'))
    (hcount : chain.length + ignored'.length = byDigest.length) :
    Lineage host byDigest
      ⟨chain, chain.getLast?.map (·.recordDigest), sortBy textLe ignored'⟩ := by
  have hdigests := indexRecords_nodup hindex nodup_nil
  obtain ⟨rest, hchain, hlinked, hrest⟩ := (walk_ok h).linked
  rw [nil_append] at hchain
  have hroots : ∀ record ∈ byDigest, record.previousDigest = none ↔ record = root := by
    intro record hmem
    rw [← mem_singleton (a := record), ← hroot, mem_children]
    exact (and_iff_right hmem).symm
  have hrootMem : root ∈ byDigest := by
    have hmem : root ∈ children byDigest none := by
      rw [hroot]
      exact mem_singleton_self _
    exact (mem_children.mp hmem).1
  exact {
    digest := fun record hmem =>
      digest_of_checkRecord (checkRecord_of_mem hindex (fun _ hnone => by cases hnone) hmem)
    digests := hdigests
    sub := by
      dsimp only
      rw [hchain]
      intro record hmem
      rcases List.mem_cons.mp hmem with rfl | hmem
      · exact hrootMem
      · exact hrest record hmem
    root := ⟨root, by rw [hchain]; rfl, hroots⟩
    linked := by
      intro before record after hsplit
      dsimp only at hsplit
      have hadmitted := (walk_ok h).admitted .nil
      have hadmitted := admit_ok (hadmitted before record after hsplit)
      refine ⟨hadmitted.1, ?_, checkOwnership_legal hadmitted.2⟩
      rcases eq_nil_or_concat before with rfl | ⟨before, last, rfl⟩
      · rw [hchain, nil_append, List.cons.injEq] at hsplit
        obtain ⟨rfl, -⟩ := hsplit
        exact (hroots root hrootMem).mpr rfl
      · rw [hchain.symm.trans hsplit, concat_eq_append, append_assoc,
          singleton_append, isChain_append_cons_cons] at hlinked
        simpa [Follows] using hlinked.2.1
    tip := rfl
    reached := fun record hmem => walk_reaches hdigests hroot h hcount hmem
    ignored := by
      intro key hkey
      rcases (walk_ignored h nodup_nil).2 key (mem_sortBy.mp hkey) with
        hnone | hlost
      · cases hnone
      · exact hlost }

/-- The walk ends on every input, and an accepted ledger is one lineage. -/
theorem ledger_lineage (host : Host State Receipt) (repository : String) (pr : Nat)
    (comments : List String) :
    (∀ byDigest root extra, root ∈ byDigest →
      walk host byDigest (byDigest.length + 1 + extra) [] [] root =
        walk host byDigest (byDigest.length + 1) [] [] root) ∧
    (∀ (byDigest : List (ReviewStateRecord State Receipt)) (keys ignored : List String) extra,
      ignoreStale byDigest (keys.length + byDigest.length + extra) keys ignored =
        ignoreStale byDigest (keys.length + byDigest.length) keys ignored) ∧
    ∀ read, parseChain host repository pr comments = .ok read →
      ∃ records, stateRecords host repository pr comments = .ok records ∧
        (records = [] ∧ read = ⟨[], none, []⟩ ∨ ∃ distinct,
          (∀ record, record ∈ distinct ↔ record ∈ records) ∧ Lineage host distinct read) := by
  refine ⟨?_, ?_, ?_⟩
  · intro byDigest root extra hroot
    exact walk_enough extra .nil (List.nil_subset _) hroot (by simp)
  · intro byDigest keys ignored extra
    exact ignoreStale_enough extra (ignoreStale_bound keys)
  · intro read h
    obtain ⟨records, hrecords, hread⟩ := parseChain_walked h
    refine ⟨records, hrecords, ?_⟩
    rcases hread with hempty | ⟨byDigest, root, chain, ignored, hindex, hroot, hwalk, hcount, rfl⟩
    · exact .inl hempty
    · refine .inr ⟨byDigest, fun record => ?_, walk_lineage hindex hroot hwalk hcount⟩
      rw [mem_indexRecords hindex]
      simp

end

end NilsCli.Review
