import NilsCli.Review.Loop

/-!
# What an accepted observation does

An observation that says again what was last seen at the head of a state leaves it as it is
(`observationMatchesState_iff`).
-/

namespace NilsCli.Review

open Lib List

variable {host : LoopHost} {s start next : ReviewLoopState} {head : String}
  {rows : List ReviewFindingObservation} {current : SortedMap String ReviewFindingObservation}
  {t : ReviewLoopTransition} {finding finding' : ReviewLoopFinding}
  {row : ReviewFindingObservation} {key : String}

/-! ## Checks -/

theorem checkRows_eq_ok {ν : Type} {check : String → ν → Except ForgeError Unit}
    {m : SortedMap String ν} {u : Unit} : checkRows check m.rows = .ok u ↔
      ∀ k v, m.find? k = some v → check k v = .ok () := by
  have hrows : ∀ rows : List (String × ν), checkRows check rows = .ok () ↔
      ∀ row ∈ rows, check row.1 row.2 = .ok () := by
    intro rows
    induction rows with
    | nil => simp [checkRows]
    | cons row rows ih =>
      unfold checkRows
      rw [bind_eq_ok, forall_mem_cons]
      constructor
      · rintro ⟨_, h, hrest⟩
        exact ⟨h, ih.mp hrest⟩
      · rintro ⟨h, hrest⟩
        exact ⟨(), h, ih.mpr hrest⟩
  rw [hrows]
  constructor
  · exact fun h k v hv => h (k, v) (SortedMap.find?_eq_some_iff.mp hv)
  · exact fun h row hrow => h row.1 row.2 (SortedMap.find?_eq_some_iff.mpr hrow)

/-- What the checks of a state ask of one finding. -/
structure ValidFinding (key : String) (finding : ReviewLoopFinding) : Prop where
  lifecycle : validateLifecycleFingerprint key = .ok ()
  root : ∀ root, finding.rootCauseFingerprint = some root → root = key
  firstSeen : finding.firstSeenHead ≠ ""
  lastSeen : finding.lastSeenHead ≠ ""
  seen : finding.seenCount ≠ 0

theorem validateFinding_eq_ok :
    validateFinding key finding = .ok () ↔ ValidFinding key finding := by
  unfold validateFinding
  rw [bind_eq_ok]
  constructor
  · rintro ⟨_, hkey, h⟩
    obtain ⟨_, -, h⟩ := bind_eq_ok.mp h
    obtain ⟨hroot, h⟩ := ensure_bind_ok.mp h
    obtain ⟨hfirst, hlast, hseen⟩ := ensure_eq_ok.mp h
    refine ⟨hkey, fun root heq => ?_, hfirst, hlast, hseen⟩
    rw [heq] at hroot
    simpa using hroot
  · rintro ⟨hkey, hroot, hfirst, hlast, hseen⟩
    refine ⟨(), hkey, bind_eq_ok.mpr ⟨(), ?_, ensure_bind_ok.mpr ⟨?_, ensure_eq_ok.mpr
      ⟨hfirst, hlast, hseen⟩⟩⟩⟩
    · cases heq : finding.rootCauseFingerprint with
      | none => rfl
      | some root => exact hroot root heq ▸ hkey
    · cases heq : finding.rootCauseFingerprint with
      | none => rfl
      | some root => simpa using hroot root heq

/-- What is checked of a whole state. -/
theorem validateReviewLoopState_eq_ok : validateReviewLoopState s = .ok () ↔
    s.headSha ≠ "" ∧ (∀ k f, s.findings.find? k = some f → ValidFinding k f) ∧
      ∀ stop, s.hardStop = some stop → stop.valid := by
  unfold validateReviewLoopState
  rw [ensure_bind_ok, bind_eq_ok]
  constructor
  · rintro ⟨hhead, _, hrows, hstop⟩
    refine ⟨hhead, fun k f hf => validateFinding_eq_ok.mp (checkRows_eq_ok.mp hrows k f hf), ?_⟩
    intro stop hs
    have h := ensure_eq_ok.mp hstop
    rw [hs] at h
    exact h
  · rintro ⟨hhead, hrows, hstop⟩
    refine ⟨hhead, (), checkRows_eq_ok.mpr fun k f hf => validateFinding_eq_ok.mpr (hrows k f hf),
      ensure_eq_ok.mpr ?_⟩
    cases hs : s.hardStop with
    | none => rfl
    | some stop => exact hstop stop hs

/-! ## Canonical rows -/

structure CanonicalRow (key : String) (row : ReviewFindingObservation) : Prop where
  lifecycle : validateLifecycleFingerprint key = .ok ()
  root : ∀ root, row.rootCauseFingerprint = some root → root = key
  blocking : row.blocking = true → row.status = .open_
  threads : row.threads.Pairwise (· < ·)

theorem canonicalRows_ok {result : SortedMap String ReviewFindingObservation}
    (h : canonicalRows rows result = .ok current)
    (hresult : ∀ k row, result.find? k = some row → CanonicalRow k row) :
    ∀ k row, current.find? k = some row → CanonicalRow k row := by
  induction rows generalizing result with
  | nil =>
    cases h
    exact hresult
  | cons observation rows ih =>
    unfold canonicalRows at h
    obtain ⟨_, hfingerprint, h⟩ := bind_eq_ok.mp h
    obtain ⟨_, hroot, h⟩ := bind_eq_ok.mp h
    obtain ⟨-, h⟩ := ensure_bind_ok.mp h
    refine ih h fun k row hrow => ?_
    by_cases hk : k = observation.lifecycle
    · subst hk
      rw [SortedMap.find?_insert_self] at hrow
      cases hrow
      refine ⟨?_, fun root heq => ?_, fun hblocking => ?_, sortDedup_sorted _⟩
      · cases heq : observation.rootCauseFingerprint with
        | none =>
          rw [ReviewFindingObservation.lifecycle, heq]
          exact hfingerprint
        | some root =>
          rw [ReviewFindingObservation.lifecycle, heq]
          rw [heq] at hroot
          exact hroot
      · have hsome : observation.rootCauseFingerprint = some root := heq
        rw [ReviewFindingObservation.lifecycle, hsome]
        rfl
      · simp only [ReviewFindingObservation.canonical, Bool.and_eq_true, decide_eq_true_eq]
          at hblocking
        exact hblocking.2
    · rw [SortedMap.find?_insert_of_ne _ _ hk] at hrow
      exact hresult k row hrow

/-- Every row of an accepted observation is in canonical form. -/
theorem canonicalObservations_ok (h : canonicalObservations rows = .ok current) :
    ∀ k row, current.find? k = some row → CanonicalRow k row :=
  canonicalRows_ok h fun k row hrow => by
    rw [SortedMap.find?_eq_some_iff] at hrow
    cases hrow

/-! ## The start of an observation -/

/-- A stopped loop goes on with the attempt that was stopped, once it is extended. -/
theorem resumed_eq_ok : resumed host s head current = .ok start ↔
    start = { s with hardStop := none } ∧ ∀ stop, s.hardStop = some stop →
      stop.attemptedHeadSha = head ∧
      stop.observationDigest = reviewObservationDigest host head current ∧
      stop.extensionApplied = true := by
  obtain ⟨headSha, round, noProgressRounds, budget, findings, extensions, hardStop⟩ := s
  cases hardStop with
  | none =>
    constructor
    · rintro h
      cases h
      exact ⟨rfl, nofun⟩
    · rintro ⟨rfl, -⟩
      rfl
  | some stop =>
    unfold resumed
    simp only [ensure_bind_ok]
    constructor
    · rintro ⟨⟨hhead, hdigest⟩, happlied, h⟩
      cases h
      exact ⟨rfl, by rintro _ ⟨⟩; exact ⟨hhead, hdigest, happlied⟩⟩
    · rintro ⟨rfl, h⟩
      obtain ⟨hhead, hdigest, happlied⟩ := h stop rfl
      exact ⟨⟨hhead, hdigest⟩, happlied, rfl⟩

theorem missing_eq_nil : missing s current = [] ↔
    ∀ k f, s.findings.find? k = some f → f.status = .open_ → ∃ row, current.find? k = some row := by
  unfold missing
  rw [map_eq_nil_iff, filter_eq_nil_iff]
  constructor
  · intro h k f hf hopen
    have hrow := h (k, f) (SortedMap.find?_eq_some_iff.mp hf)
    simpa [hopen, Option.isNone_iff_eq_none, Option.ne_none_iff_exists'] using hrow
  · rintro h ⟨k, f⟩ hrow hcond
    simp only [Bool.and_eq_true, decide_eq_true_eq] at hcond
    obtain ⟨row, hfind⟩ := h k f (SortedMap.find?_eq_some_iff.mpr hrow) hcond.1
    rw [hfind] at hcond
    exact Bool.false_ne_true hcond.2

theorem checkSameHead_eq_ok : checkSameHead current key finding = .ok () ↔
    (finding.status = .open_ → ∃ row, current.find? key = some row ∧ row.status ≠ .fixed ∧
      ¬ (finding.blocking = true ∧ row.status = .open_ ∧ ¬ row.blocking = true)) := by
  unfold checkSameHead
  by_cases hopen : finding.status = .open_
  · rw [if_neg (not_not.mpr hopen)]
    simp only [orErr_bind_ok, ensure_bind_ok, ensure_eq_ok, hopen, forall_const]
  · rw [if_pos hopen]
    exact ⟨fun _ h => absurd h hopen, fun _ => rfl⟩

/-- The observation names exactly the findings last seen at the head, as the state has them. -/
theorem observationMatchesState_iff : observationMatchesState s current = true ↔
    (∀ k f, s.findings.find? k = some f → f.lastSeenHead = s.headSha →
      ∃ row, current.find? k = some row) ∧
    ∀ k row, current.find? k = some row → ∃ f, s.findings.find? k = some f ∧
      f.lastSeenHead = s.headSha ∧ f.rootCauseFingerprint = row.rootCauseFingerprint ∧
      f.status = row.status ∧ f.blocking = row.blocking ∧
      ∀ thread ∈ row.threads, thread ∈ f.threads := by
  unfold observationMatchesState
  rw [Bool.and_eq_true, decide_eq_true_eq, all_eq_true]
  generalize hactive : s.findings.rows.filter (fun row => row.2.lastSeenHead = s.headSha) = active
  have hmem : ∀ k f, (k, f) ∈ active ↔ s.findings.find? k = some f ∧ f.lastSeenHead = s.headSha := by
    intro k f
    rw [← hactive, mem_filter, SortedMap.find?_eq_some_iff, decide_eq_true_eq]
  have hrows : (∀ row ∈ current.rows, (active.any fun finding => finding.1 = row.1 &&
        finding.2.rootCauseFingerprint = row.2.rootCauseFingerprint &&
        finding.2.status = row.2.status && finding.2.blocking = row.2.blocking &&
        row.2.threads.all fun thread => finding.2.threads.contains thread) = true) ↔
      ∀ k row, current.find? k = some row → ∃ f, s.findings.find? k = some f ∧
        f.lastSeenHead = s.headSha ∧ f.rootCauseFingerprint = row.rootCauseFingerprint ∧
        f.status = row.status ∧ f.blocking = row.blocking ∧
        ∀ thread ∈ row.threads, thread ∈ f.threads := by
    simp only [SortedMap.find?_eq_some_iff (m := current), any_eq_true, Prod.forall,
      Prod.exists, Bool.and_eq_true, decide_eq_true_eq, hmem, all_eq_true,
      contains_iff_mem]
    refine forall_congr' fun k => forall_congr' fun row => imp_congr_right fun _ => ?_
    constructor
    · rintro ⟨k', f, ⟨hf, hlast⟩, ⟨⟨⟨rfl, hroot⟩, hstatus⟩, hblocking⟩, hthreads⟩
      exact ⟨f, hf, hlast, hroot, hstatus, hblocking, hthreads⟩
    · rintro ⟨f, hf, hlast, hroot, hstatus, hblocking, hthreads⟩
      exact ⟨k, f, ⟨hf, hlast⟩, ⟨⟨⟨rfl, hroot⟩, hstatus⟩, hblocking⟩, hthreads⟩
  rw [hrows]
  refine and_congr_left fun hall => ?_
  -- the keys of the rows are among those of the active findings, so counting compares the two
  have hnodup : (active.map (·.1)).Nodup := by
    rw [← hactive]
    exact s.findings.keys_nodup.sublist (List.filter_sublist.map _)
  have hsub : current.keys ⊆ active.map (·.1) := by
    intro k hk
    obtain ⟨row, hrow⟩ := SortedMap.mem_keys_iff.mp hk
    obtain ⟨f, hf, hlast, -⟩ := hall k row hrow
    exact List.mem_map.mpr ⟨(k, f), (hmem k f).mpr ⟨hf, hlast⟩, rfl⟩
  have hperm := subperm_of_subset current.keys_nodup hsub
  have hsize : current.keys.length = current.size := length_map _
  constructor
  · intro hlength k f hf hlast
    have hle : (active.map (·.1)).length ≤ current.keys.length := by
      rw [length_map, hsize, hlength]
    have hmem' := (hperm.perm_of_length_le hle).mem_iff.mpr
      (List.mem_map.mpr ⟨(k, f), (hmem k f).mpr ⟨hf, hlast⟩, rfl⟩)
    exact SortedMap.mem_keys_iff.mp hmem'
  · intro hnamed
    have hsub' : active.map (·.1) ⊆ current.keys := by
      intro k hk
      obtain ⟨⟨k', f⟩, hkf, rfl⟩ := List.mem_map.mp hk
      obtain ⟨hf, hlast⟩ := (hmem k' f).mp hkf
      exact SortedMap.mem_keys_iff.mpr (hnamed k' f hf hlast)
    have hle := (subperm_of_subset hnodup hsub').length_le
    have hge := hperm.length_le
    rw [length_map, hsize] at hle hge
    omega

/-! ## The rows in turn -/

inductive Observed (budget : ReviewLoopBudget) (head : String) (headChanged : Bool)
    (row : ReviewFindingObservation) :
    Option ReviewLoopFinding → ReviewLoopFinding → Prop
  | first : Observed budget head headChanged row none (newFinding head row)
  | reasserted {finding : ReviewLoopFinding} :
      finding.rootCauseFingerprint = row.rootCauseFingerprint → row.status = .fixed →
      finding.status = .fixed → headChanged = false →
      Observed budget head headChanged row (some finding)
        { finding with threads := sortDedup (finding.threads ++ row.threads) }
  | seen {finding : ReviewLoopFinding} (reopenCount : Nat) :
      finding.rootCauseFingerprint = row.rootCauseFingerprint →
      (row.status = .fixed → headChanged = true) →
      (finding.status = .fixed ∧ row.status = .open_ ∧ reopenCount = u32Succ finding.reopenCount ∧
          reopenCount ≤ budget.maxAutoReopensPerFingerprint ∨
        ¬ (finding.status = .fixed ∧ row.status = .open_) ∧ reopenCount = finding.reopenCount) →
      Observed budget head headChanged row (some finding)
        { finding with
          status := row.status
          blocking := decide (row.status = .open_) && row.blocking
          lastSeenHead := head
          seenCount := u32Succ finding.seenCount
          reopenCount
          threads := sortDedup (finding.threads ++ row.threads) }

/-- What becomes of one finding. -/
theorem observeFinding_eq_ok {budget : ReviewLoopBudget} {headChanged : Bool}
    {before : Option ReviewLoopFinding} :
    observeFinding budget head headChanged before row = .ok finding' ↔
      Observed budget head headChanged row before finding' := by
  cases before with
  | none =>
    constructor
    · rintro h
      cases h
      exact .first
    · rintro ⟨⟩
      rfl
  | some finding =>
    unfold observeFinding
    simp only [ensure_bind_ok]
    constructor
    · rintro ⟨hroot, hreopen, h⟩
      by_cases hfixed : row.status = .fixed ∧ ¬ headChanged = true
      · rw [if_pos hfixed] at h
        by_cases hwas : finding.status = .fixed
        · rw [if_pos hwas] at h
          cases h
          have hno : ¬ (decide (finding.status = .fixed) && decide (row.status = .open_)) = true := by
            simp [hfixed.1]
          rw [if_neg hno]
          exact .reasserted hroot hfixed.1 hwas (Bool.eq_false_iff.mpr hfixed.2)
        · rw [if_neg hwas] at h
          cases h
      · rw [if_neg hfixed] at h
        cases h
        refine .seen _ hroot (fun hrow => by_contra fun hhead => hfixed ⟨hrow, hhead⟩) ?_
        by_cases hre : (decide (finding.status = .fixed) && decide (row.status = .open_)) = true
        · have hle := hreopen hre
          rw [if_pos hre] at hle ⊢
          simp only [Bool.and_eq_true, decide_eq_true_eq] at hre
          exact .inl ⟨hre.1, hre.2, rfl, hle⟩
        · rw [if_neg hre]
          simp only [Bool.and_eq_true, decide_eq_true_eq] at hre
          exact .inr ⟨hre, rfl⟩
    · rintro (_ | ⟨hroot, hrow, hwas, hhead⟩ | ⟨reopenCount, hroot, hfixed, hreopen⟩)
      · have hno : ¬ (decide (finding.status = .fixed) && decide (row.status = .open_)) = true := by
          simp [hrow]
        refine ⟨hroot, fun h => absurd h hno, ?_⟩
        rw [if_pos ⟨hrow, by simp [hhead]⟩, if_pos hwas, if_neg hno]
      · have hif : ¬ (row.status = .fixed ∧ ¬ headChanged = true) := fun h => h.2 (hfixed h.1)
        rcases hreopen with ⟨hwas, hopen, rfl, hle⟩ | ⟨hno, rfl⟩
        · have hre : (decide (finding.status = .fixed) && decide (row.status = .open_)) = true := by
            simp [hwas, hopen]
          refine ⟨hroot, fun _ => by rw [if_pos hre]; exact hle, ?_⟩
          rw [if_neg hif, if_pos hre]
        · have hre : ¬ (decide (finding.status = .fixed) && decide (row.status = .open_)) = true := by
            simpa using hno
          refine ⟨hroot, fun h => absurd h hre, ?_⟩
          rw [if_neg hif, if_neg hre]

structure Advanced (start : ReviewLoopState) (head : String)
    (current : SortedMap String ReviewFindingObservation) (next : ReviewLoopState) : Prop where
  headSha : next.headSha = head
  round : next.round = nextRound start (decide (start.headSha ≠ head))
  roundWithin : next.round ≤ start.budget.maxRepairRounds
  noProgress : next.noProgressRounds = nextNoProgress start (decide (start.headSha ≠ head)) current
  noProgressWithin : next.noProgressRounds ≤ start.budget.maxNoProgressRounds
  budget : next.budget = start.budget
  extensions : next.extensions = start.extensions
  hardStop : next.hardStop = none
  named : ∀ k row, current.find? k = some row → ∃ finding,
    Observed start.budget head (decide (start.headSha ≠ head)) row (start.findings.find? k) finding ∧
      next.findings.find? k = some finding
  unnamed : ∀ k, current.find? k = none → next.findings.find? k = start.findings.find? k

/-- A round within both budgets, as a relation (`Advanced`). -/
theorem advance_eq_ok : advance start head current = .ok t ↔
    Advanced start head current t.state ∧ t.changed = decide (t.state ≠ start) := by
  obtain ⟨next, changed⟩ := t
  unfold advance
  simp only [ensure_bind_ok]
  simp only [bind_eq_ok, SortedMap.upsertAll_eq_ok current.keys_nodup, observeFinding_eq_ok]
  constructor
  · rintro ⟨hround, hno, findings, ⟨hnamed, hunnamed⟩, h⟩
    cases h
    refine ⟨⟨rfl, rfl, hround, rfl, hno, rfl, rfl, rfl, fun k row hrow => ?_, fun k hk => ?_⟩, rfl⟩
    · exact hnamed (k, row) (SortedMap.find?_eq_some_iff.mp hrow)
    · exact hunnamed k (SortedMap.find?_eq_none_iff.mp hk)
  · rintro ⟨hadv, hchanged⟩
    refine ⟨hadv.round ▸ hadv.roundWithin, hadv.noProgress ▸ hadv.noProgressWithin, next.findings,
      ⟨fun row hrow => ?_, fun k hk => ?_⟩, ?_⟩
    · exact hadv.named row.1 row.2 (SortedMap.find?_eq_some_iff.mpr hrow)
    · exact hadv.unnamed k (SortedMap.find?_eq_none_iff.mpr hk)
    · have hnext : next = ⟨head, nextRound start (decide (start.headSha ≠ head)),
          nextNoProgress start (decide (start.headSha ≠ head)) current, start.budget, next.findings,
          start.extensions, none⟩ := by
        rw [← hadv.round, ← hadv.noProgress, ← hadv.budget, ← hadv.extensions, ← hadv.hardStop]
        cases next
        cases hadv.headSha
        rfl
      rw [← hnext, hchanged]

theorem observeFrom_eq_ok : observeFrom start head current = .ok t ↔
    start.headSha = head ∧ observationMatchesState start current = true ∧ t = ⟨start, false⟩ ∨
    (start.headSha ≠ head → missing start current = []) ∧
      (start.headSha = head → ¬ observationMatchesState start current = true ∧
        ∀ k f, start.findings.find? k = some f → checkSameHead current k f = .ok ()) ∧
      Advanced start head current t.state ∧ t.changed = decide (t.state ≠ start) := by
  unfold observeFrom
  by_cases hhead : start.headSha = head
  · rw [if_neg (not_not.mpr hhead)]
    by_cases hmatch : observationMatchesState start current = true
    · rw [if_pos hmatch]
      constructor
      · rintro h
        exact .inl ⟨hhead, hmatch, (Except.ok.inj h).symm⟩
      · rintro (⟨-, -, rfl⟩ | ⟨-, h, -⟩)
        · rfl
        · exact absurd hmatch (h hhead).1
    · rw [if_neg hmatch]
      simp only [bind_eq_ok, checkRows_eq_ok, advance_eq_ok]
      constructor
      · rintro ⟨_, hrows, hadv⟩
        exact .inr ⟨fun h => absurd hhead h, fun _ => ⟨hmatch, hrows⟩, hadv⟩
      · rintro (⟨-, h, -⟩ | ⟨-, h, hadv⟩)
        · exact absurd h hmatch
        · exact ⟨(), (h hhead).2, hadv⟩
  · rw [if_pos hhead]
    simp only [ensure_bind_ok, advance_eq_ok]
    constructor
    · rintro ⟨hmissing, hadv⟩
      exact .inr ⟨fun _ => hmissing, fun h => absurd h hhead, hadv⟩
    · rintro (⟨h, -⟩ | ⟨h, -, hadv⟩)
      · exact absurd h hhead
      · exact ⟨h hhead, hadv⟩

/-- The main result here: which observations a state accepts, and what comes of them. -/
theorem observeReviewLoop_eq_ok : observeReviewLoop host (some s) head rows = .ok t ↔
    trim head ≠ "" ∧ ∃ current, canonicalObservations rows = .ok current ∧
      validateReviewLoopState s = .ok () ∧
      (∀ stop, s.hardStop = some stop → stop.attemptedHeadSha = head ∧
        stop.observationDigest = reviewObservationDigest host head current ∧
        stop.extensionApplied = true) ∧
      observeFrom { s with hardStop := none } head current = .ok t := by
  unfold observeReviewLoop
  rw [ensure_bind_ok, bind_eq_ok]
  refine and_congr_right fun _ => exists_congr fun current => and_congr_right fun _ => ?_
  simp only [bind_eq_ok, resumed_eq_ok]
  constructor
  · rintro ⟨_, hvalid, _, ⟨rfl, hstop⟩, h⟩
    exact ⟨hvalid, hstop, h⟩
  · rintro ⟨hvalid, hstop, h⟩
    exact ⟨(), hvalid, _, ⟨rfl, hstop⟩, h⟩

end NilsCli.Review
