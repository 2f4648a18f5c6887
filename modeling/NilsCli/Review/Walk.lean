import Mathlib.Data.List.Induction
import NilsCli.Review.Ledger

/-!
# What the walk accepts

Every record of an accepted chain was admitted after the records before it (`Admitted`), which
fixes its place in the chain and ties its assignment generation to the handoff that owned the review
there.
-/

namespace NilsCli.Review

open Lib List

section
variable {State Receipt : Type} {host : Host State Receipt}
  {record : ReviewStateRecord State Receipt}
  {ordered records before after : List (ReviewStateRecord State Receipt)}
  {handoff old : ReviewHandoff}

/-! ## The active handoff -/

theorem latest_append :
    latest (before ++ after) = (latest after).or (latest before) := by
  simp [latest, List.findSome?_append]

theorem latest_concat : latest (ordered ++ [record]) = record.handoff.or (latest ordered) := by
  rw [latest_append]
  congr 1
  simp [latest]

/-- The active handoff is carried by one of the records. -/
theorem exists_of_latest (h : latest records = some handoff) :
    ∃ record ∈ records, record.handoff = some handoff := by
  obtain ⟨record, hmem, hhandoff⟩ := List.exists_of_findSome?_eq_some h
  exact ⟨record, List.mem_reverse.mp hmem, hhandoff⟩

/-! ## Admission -/

theorem checkOwnership_handoff {active : Option ReviewHandoff}
    (hhandoff : record.handoff = some handoff) (h : checkOwnership active record = .ok ()) :
    record.assignmentGeneration = some handoff.assignmentGeneration ∧
      ∀ old, active = some old → old.assignmentGeneration ≤ handoff.assignmentGeneration := by
  unfold checkOwnership at h
  rw [hhandoff] at h
  cases active with
  | none =>
    obtain ⟨hgeneration, -, -, -, hrecord⟩ := ensure_eq_ok.mp h
    exact ⟨by rw [hrecord, hgeneration], by simp⟩
  | some old =>
    dsimp only at h
    unfold checkTransition at h
    rw [orErr_bind_ok] at h
    obtain ⟨nextGeneration, hnext, h⟩ := h
    have hrules := ensure_eq_ok.mp h
    have hsucc := eq_of_checkedSucc hnext
    simp only [decide_eq_true_eq, not_or, not_and, not_not] at hrules
    obtain ⟨-, hstep, -, -, hrecord⟩ := hrules
    refine ⟨hrecord, ?_⟩
    rintro old' ⟨⟩
    by_cases hsame : handoff.assignmentGeneration = old.assignmentGeneration
    · exact hsame.ge
    · have := hstep hsame
      omega

theorem checkOwnership_other {active : Option ReviewHandoff} (hhandoff : record.handoff = none)
    (h : checkOwnership active record = .ok ()) :
    record.assignmentGeneration = active.map (·.assignmentGeneration) := by
  unfold checkOwnership at h
  rw [hhandoff] at h
  cases active with
  | none => exact ensure_eq_ok.mp h
  | some old => exact (ensure_eq_ok.mp h).1

def Admitted (host : Host State Receipt) (records : List (ReviewStateRecord State Receipt)) :
    Prop :=
  ∀ before record after, records = before ++ record :: after → admit_ host before record = .ok ()

theorem admit_ok (h : admit_ host ordered record = .ok ()) :
    record.generation = ordered.length ∧ checkOwnership (latest ordered) record = .ok () := by
  unfold admit_ at h
  rw [ensure_bind_ok, bind_eq_ok] at h
  obtain ⟨hgeneration, ⟨⟩, hownership, -⟩ := h
  exact ⟨hgeneration, hownership⟩

theorem Admitted.nil : Admitted host [] := by
  intro before record after h
  simp at h

theorem Admitted.concat (hordered : Admitted host ordered)
    (h : admit_ host ordered record = .ok ()) : Admitted host (ordered ++ [record]) := by
  intro before record' after heq
  rcases eq_nil_or_concat after with rfl | ⟨after', last, rfl⟩
  · obtain ⟨rfl, hrecord⟩ := append_inj' heq rfl
    cases hrecord
    exact h
  · rw [concat_eq_append, ← cons_append, ← append_assoc] at heq
    exact hordered before record' after' (append_inj' heq rfl).1

theorem Admitted.of_append (h : Admitted host (before ++ after)) : Admitted host before := by
  intro before' record after' heq
  exact h before' record (after' ++ after) (by simp [heq])

theorem Admitted.generation (h : Admitted host (before ++ record :: after)) :
    record.generation = before.length := (admit_ok (h before record after rfl)).1

theorem Admitted.le_generation (h : Admitted host (before ++ after)) (hmem : record ∈ after) :
    before.length ≤ record.generation := by
  obtain ⟨upper, lower, rfl⟩ := List.append_of_mem hmem
  rw [← append_assoc] at h
  rw [h.generation, length_append]
  omega

theorem Admitted.assignmentGeneration (h : Admitted host (before ++ record :: after)) :
    record.assignmentGeneration = (latest (before ++ [record])).map (·.assignmentGeneration) := by
  have hownership := (admit_ok (h before record after rfl)).2
  rw [latest_concat]
  cases hhandoff : record.handoff with
  | some handoff => simp [(checkOwnership_handoff hhandoff hownership).1]
  | none => simp [checkOwnership_other hhandoff hownership]

theorem Admitted.nodup (h : Admitted host records) : records.Nodup := by
  induction records using reverseRecOn with
  | nil => exact nodup_nil
  | append_singleton ordered last ih =>
    rw [nodup_append]
    refine ⟨ih h.of_append, nodup_singleton last, ?_⟩
    rintro record hmem _ hlast rfl
    obtain rfl := List.mem_singleton.mp hlast
    obtain ⟨before, after, rfl⟩ := List.append_of_mem hmem
    have hfirst := h.of_append.generation
    have hagain := h.generation
    rw [length_append, length_cons] at hagain
    omega

theorem Admitted.handoff_generation (h : Admitted host records) (hmem : record ∈ records)
    (hhandoff : record.handoff = some handoff) :
    record.assignmentGeneration = some handoff.assignmentGeneration := by
  obtain ⟨before, after, rfl⟩ := List.append_of_mem hmem
  exact (checkOwnership_handoff hhandoff (admit_ok (h before record after rfl)).2).1

/-- The assignment generation of the handoff that owns the review, 0 before the first one. -/
def latestGeneration (records : List (ReviewStateRecord State Receipt)) : Nat :=
  (latest records).elim 0 (·.assignmentGeneration)

theorem Admitted.le_latestGeneration (h : Admitted host records) (hmem : record ∈ records)
    (hhandoff : record.handoff = some handoff) :
    handoff.assignmentGeneration ≤ latestGeneration records := by
  induction records using reverseRecOn with
  | nil => cases hmem
  | append_singleton ordered last ih =>
    have hlast := (admit_ok (h ordered last [] rfl)).2
    unfold latestGeneration
    rw [latest_concat]
    rcases List.mem_append.mp hmem with hmem | hmem
    · have hle := ih h.of_append hmem
      unfold latestGeneration at hle
      cases hnew : last.handoff with
      | none => exact hle
      | some next =>
        cases hactive : latest ordered with
        | none => simp_all
        | some old =>
          rw [hactive] at hle
          exact hle.trans ((checkOwnership_handoff hnew hlast).2 old hactive)
    · rw [List.mem_singleton.mp hmem] at hhandoff
      simp [hhandoff]

/-! ## Forks -/

variable [DecidableEq State] [DecidableEq Receipt]
  {byDigest candidates stale chain : List (ReviewStateRecord State Receipt)}
  {winner next : ReviewStateRecord State Receipt} {ignored ignored' : List String} {fuel : Nat}

theorem resolveFork_winner (h : resolveFork ordered candidates = .ok (winner, stale)) :
    stale = candidates.filter (· ≠ winner) ∧ ∃ active, latest ordered = some active ∧
      candidates.filter (winsFork active (active.assignmentGeneration + 1)) = [winner] ∧
      ∀ record ∈ candidates.filter (· ≠ winner),
        record.assignmentGeneration = some active.assignmentGeneration := by
  unfold resolveFork at h
  rw [orErr_bind_ok] at h
  obtain ⟨active, hactive, h⟩ := h
  rw [orErr_bind_ok] at h
  obtain ⟨nextGeneration, hnext, h⟩ := h
  cases eq_of_checkedSucc hnext
  split at h
  next winner' hwinners =>
    rw [ensure_bind_ok] at h
    obtain ⟨hstale, h⟩ := h
    cases h
    exact ⟨rfl, active, hactive, hwinners, hstale⟩
  next => cases h

theorem resolveFork_ok (h : resolveFork ordered candidates = .ok (winner, stale)) :
    winner ∈ candidates ∧ stale = candidates.filter (· ≠ winner) ∧
      ∃ active handoff, latest ordered = some active ∧ winner.handoff = some handoff ∧
        handoff.assignmentGeneration = active.assignmentGeneration + 1 ∧
        winner.assignmentGeneration = some (active.assignmentGeneration + 1) ∧
        ∀ record ∈ candidates, record ≠ winner →
          record.assignmentGeneration = some active.assignmentGeneration := by
  obtain ⟨hstale, active, hactive, hwinners, hothers⟩ := resolveFork_winner h
  obtain ⟨hcandidate, hwins⟩ := List.mem_filter.mp (hwinners ▸ mem_singleton_self winner)
  unfold winsFork at hwins
  rw [Bool.and_eq_true, decide_eq_true_eq, Option.any_eq_true] at hwins
  obtain ⟨⟨handoff, hhandoff, hrules⟩, hrecord⟩ := hwins
  simp only [Bool.and_eq_true, decide_eq_true_eq] at hrules
  refine ⟨hcandidate, hstale, active, handoff, hactive, hhandoff, hrules.1.1, hrecord, ?_⟩
  intro record hmem hne
  exact hothers record (List.mem_filter.mpr ⟨hmem, by simpa using hne⟩)

theorem nextRecord_none (h : nextRecord ordered candidates = .ok none) : candidates = [] := by
  unfold nextRecord at h
  split at h
  next => rfl
  next => cases h
  next =>
    cases hfork : resolveFork ordered candidates with
    | error e => rw [hfork] at h; cases h
    | ok sides => rw [hfork] at h; cases h

theorem nextRecord_mem (h : nextRecord ordered candidates = .ok (some (next, stale))) :
    next ∈ candidates := by
  unfold nextRecord at h
  split at h
  next => cases h
  next => cases h; exact mem_singleton_self _
  next =>
    cases hfork : resolveFork ordered candidates with
    | error e => rw [hfork] at h; cases h
    | ok sides =>
      rw [hfork] at h
      cases h
      exact (resolveFork_ok hfork).1

theorem nextRecord_fork (h : nextRecord ordered candidates = .ok (some (next, stale)))
    (hmem : record ∈ candidates) (hne : record ≠ next) :
    resolveFork ordered candidates = .ok (next, stale) := by
  unfold nextRecord at h
  split at h
  next => cases h
  next =>
    cases h
    exact absurd (List.mem_singleton.mp hmem) hne
  next =>
    cases hfork : resolveFork ordered candidates with
    | error e => rw [hfork] at h; cases h
    | ok sides =>
      rw [hfork] at h
      cases h
      rfl

/-! ## The walk -/

/-- From `record`, after the records `ordered`, the walk leads to the whole chain. -/
inductive Descends (host : Host State Receipt)
    (byDigest : List (ReviewStateRecord State Receipt)) :
    List (ReviewStateRecord State Receipt) → ReviewStateRecord State Receipt →
      List (ReviewStateRecord State Receipt) → Prop
  | tip {ordered : List (ReviewStateRecord State Receipt)}
      {record : ReviewStateRecord State Receipt} (hadmits : admit_ host ordered record = .ok ())
      (hlast : children byDigest (some record.recordDigest) = []) :
      Descends host byDigest ordered record (ordered ++ [record])
  | next {ordered stale chain : List (ReviewStateRecord State Receipt)}
      {record following : ReviewStateRecord State Receipt}
      (hadmits : admit_ host ordered record = .ok ())
      (hnext : nextRecord (ordered ++ [record])
        (children byDigest (some record.recordDigest)) = .ok (some (following, stale)))
      (hrest : Descends host byDigest (ordered ++ [record]) following chain) :
      Descends host byDigest ordered record chain

theorem walk_ok (h : walk host byDigest fuel ordered ignored record = .ok (chain, ignored')) :
    Descends host byDigest ordered record chain := by
  induction fuel generalizing ordered ignored record with
  | zero => cases h
  | succ fuel ih =>
    unfold walk at h
    rw [bind_eq_ok] at h
    obtain ⟨⟨⟩, hadmits, h⟩ := h
    rw [bind_eq_ok] at h
    obtain ⟨following, hnext, h⟩ := h
    cases following with
    | none =>
      cases h
      exact .tip hadmits (nextRecord_none hnext)
    | some following => exact .next hadmits hnext (ih h)

theorem Descends.prefix (h : Descends host byDigest ordered record chain) :
    ∃ rest, chain = ordered ++ record :: rest := by
  induction h with
  | tip => exact ⟨[], rfl⟩
  | @next _ _ _ _ following _ _ _ ih =>
    obtain ⟨rest, rfl⟩ := ih
    exact ⟨following :: rest, by simp⟩

theorem Descends.admitted (h : Descends host byDigest ordered record chain)
    (hordered : Admitted host ordered) : Admitted host chain := by
  induction h with
  | tip hadmits _ => exact hordered.concat hadmits
  | next hadmits _ _ ih => exact ih (hordered.concat hadmits)

/-! ## Enough fuel -/

def awaiting (byDigest : List (ReviewStateRecord State Receipt)) (ignored : List String) : Nat :=
  byDigest.countP fun record => record.previousDigest.any (· ∉ ignored)

omit [DecidableEq State] [DecidableEq Receipt] in
theorem awaiting_concat {key : String} (h : key ∉ ignored) :
    awaiting byDigest (ignored ++ [key]) + (children byDigest (some key)).length =
      awaiting byDigest ignored := by
  unfold awaiting children
  rw [← countP_eq_length_filter]
  induction byDigest with
  | nil => rfl
  | cons record byDigest ih =>
    have hrecord : (if record.previousDigest.any (· ∉ ignored ++ [key]) then 1 else 0) +
        (if record.previousDigest = some key then 1 else 0) =
          if record.previousDigest.any (· ∉ ignored) then 1 else 0 := by
      cases record.previousDigest with
      | none => rfl
      | some previous =>
        by_cases hkey : previous = key
        · subst hkey
          simp [h]
        · simp [hkey]
    simp only [countP_cons, decide_eq_true_eq] at ih ⊢
    omega

omit [DecidableEq State] [DecidableEq Receipt] in
theorem ignoreStale_enough {keys : List String} (extra : Nat)
    (h : keys.length + awaiting byDigest ignored ≤ fuel) :
    ignoreStale byDigest (fuel + extra) keys ignored = ignoreStale byDigest fuel keys ignored := by
  induction fuel generalizing keys ignored with
  | zero =>
    cases keys with
    | nil => cases extra <;> rfl
    | cons key keys => simp at h
  | succ fuel ih =>
    cases keys with
    | nil =>
      rw [Nat.succ_add]
      rfl
    | cons key keys =>
      rw [Nat.succ_add]
      unfold ignoreStale
      rw [length_cons] at h
      by_cases hkey : key ∈ ignored
      · rw [if_pos hkey, if_pos hkey]
        exact ih (by omega)
      · rw [if_neg hkey, if_neg hkey]
        refine ih ?_
        have : awaiting byDigest (ignored ++ [key]) + _ = _ := awaiting_concat hkey
        rw [length_append, length_map]
        omega

omit [DecidableEq State] [DecidableEq Receipt] in
/-- The fuel that the walk gives for a fork is enough. -/
theorem ignoreStale_bound (keys : List String) :
    keys.length + awaiting byDigest ignored ≤ keys.length + byDigest.length :=
  Nat.add_le_add_left countP_le_length _

theorem walk_enough (extra : Nat) (hordered : Admitted host ordered) (hsub : ordered ⊆ byDigest)
    (hmem : record ∈ byDigest) (h : byDigest.length < fuel + ordered.length) :
    walk host byDigest (fuel + extra) ordered ignored record =
      walk host byDigest fuel ordered ignored record := by
  induction fuel generalizing ordered ignored record with
  | zero =>
    have := hordered.nodup.length_le_of_subset hsub
    omega
  | succ fuel ih =>
    rw [Nat.succ_add]
    unfold walk
    cases hadmits : admit_ host ordered record with
    | error e => rfl
    | ok u =>
      rw [ok_bind, ok_bind]
      cases hnext : nextRecord (ordered ++ [record])
          (children byDigest (some record.recordDigest)) with
      | error e => rfl
      | ok following =>
        rw [ok_bind, ok_bind]
        cases following with
        | none => rfl
        | some following =>
          refine ih (hordered.concat hadmits) ?_ ?_ ?_
          · exact List.append_subset.mpr ⟨hsub, by simpa using hmem⟩
          · exact (List.mem_filter.mp (nextRecord_mem hnext)).1
          · rw [length_append, length_singleton]
            omega

end

end NilsCli.Review
