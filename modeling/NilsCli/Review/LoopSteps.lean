import NilsCli.Review.Budgets

/-!
# Steps of the review loop

Each operation of the loop leads to a state that is within its budgets, if the states before it are
(`Bounded`).
-/

namespace NilsCli.Review

open Lib

variable {proposal code field : String} {increment : Nat} {record : LoopRecord}
  {request : SupersessionRequest} {commits : List String}
  {transition : ReceiptTransition SupersessionReceipt} {target prior : ReviewLoopState}

variable {tip approval : String} {records : List LoopRecord} {chain : LoopChain}
  {expectedTip : Option String}

variable {host : LoopHost} {s s' : ReviewLoopState} {head : String}
  {rows : List ReviewFindingObservation} {current : SortedMap String ReviewFindingObservation}
  {t : ReviewLoopTransition} {e : ForgeError}

/-! ## Steps -/

theorem Bounded.stopped (hs : Bounded s)
    (hwithin : s.noProgressRounds ≤ s.budget.maxNoProgressRounds)
    (h : recordReviewLoopHardStop host s head rows tip e = .ok s') : Bounded s' := by
  obtain ⟨field, current, proposal, -, -, rfl⟩ := recordReviewLoopHardStop_ok h
  exact ⟨hs.round, hs.reopens, .inl hwithin⟩

theorem extendCeiling_ok
    (h : extendCeiling host s tip proposal approval code field increment = .ok s') :
    s.hardStop = none ∧ s'.headSha = s.headSha ∧ s'.hardStop = s.hardStop ∧ s'.round = s.round ∧
      s'.findings = s.findings ∧ s'.noProgressRounds = s.noProgressRounds ∧
      s'.budget = { s.budget with maxNoProgressRounds := s.budget.maxNoProgressRounds + 1 } := by
  obtain ⟨found, hproposal, h⟩ := bind_eq_ok.mp h
  obtain ⟨digest, rfl, h⟩ := orErr_bind_ok.mp h
  obtain ⟨⟨-, rfl, rfl, -⟩, h⟩ := ensure_bind_ok.mp h
  obtain ⟨budget, hbudget, h⟩ := bind_eq_ok.mp h
  cases h
  have hopen : s.hardStop = none := by
    unfold ceilingProposal at hproposal
    split at hproposal
    · cases hproposal
    · rename_i hceiling
      simp only [not_or] at hceiling
      simpa using hceiling.1
  rcases extend_eq_ok hbudget with ⟨hother, -⟩ | ⟨-, rfl⟩ | ⟨hother, -⟩
  · exact absurd hother (by decide)
  · exact ⟨hopen, rfl, rfl, rfl, rfl, rfl, rfl⟩
  · exact absurd hother (by decide)

theorem Bounded.raised (hs : Bounded s)
    (h : extendCeiling host s tip proposal approval code field increment = .ok s') : Bounded s' := by
  obtain ⟨hopen, -, -, hround, hfindings, hcount, hbudget⟩ := extendCeiling_ok h
  have howed := hs.noProgress_of fun stop hstop => by rw [hopen] at hstop; cases hstop
  refine ⟨?_, fun k f hf => ?_, .inl ?_⟩
  · rw [hround, hbudget]
    exact hs.round
  · rw [hbudget]
    exact hs.reopens k f (hfindings ▸ hf)
  · rw [hcount, hbudget]
    exact Nat.le_succ_of_le howed

theorem Observed.reopens_le {budget : ReviewLoopBudget} {headChanged : Bool}
    {row : ReviewFindingObservation} {before : Option ReviewLoopFinding} {finding : ReviewLoopFinding}
    (h : Observed budget head headChanged row before finding)
    (hbefore : ∀ f, before = some f → f.reopenCount ≤ budget.maxAutoReopensPerFingerprint) :
    finding.reopenCount ≤ budget.maxAutoReopensPerFingerprint := by
  cases h with
  | first => exact Nat.zero_le _
  | @reasserted f _ _ _ _ => exact hbefore f rfl
  | @seen f reopenCount _ _ hcount =>
    rcases hcount with ⟨-, -, -, hle⟩ | ⟨-, rfl⟩
    · exact hle
    · exact hbefore f rfl

theorem Bounded.observed (hs : Bounded s) (h : observeReviewLoop host (some s) head rows = .ok t) :
    Bounded t.state ∧ t.state.budget = s.budget ∧
      s.noProgressRounds ≤ s.budget.maxNoProgressRounds := by
  obtain ⟨-, current, -, -, hstop, hobserve⟩ := observeReviewLoop_eq_ok.mp h
  have hwithin := hs.noProgress_of fun stop hs => (hstop stop hs).2.2
  rcases observeFrom_eq_ok.mp hobserve with ⟨-, -, rfl⟩ | ⟨-, -, hadvanced, -⟩
  · exact ⟨⟨hs.round, hs.reopens, .inl hwithin⟩, rfl, hwithin⟩
  · refine ⟨⟨?_, fun k f hf => ?_, .inl ?_⟩, hadvanced.budget, hwithin⟩
    · rw [hadvanced.budget]
      exact hadvanced.roundWithin
    · rw [hadvanced.budget]
      cases hrow : current.find? k with
      | none =>
        rw [hadvanced.unnamed k hrow] at hf
        exact hs.reopens k f hf
      | some row =>
        obtain ⟨finding, hobserved, hfinding⟩ := hadvanced.named k row hrow
        obtain rfl : f = finding := Option.some.inj (hf.symm.trans hfinding)
        exact hobserved.reopens_le fun f hf => hs.reopens k f hf
    · rw [hadvanced.budget]
      exact hadvanced.noProgressWithin

theorem bounded_first (h : observeReviewLoop host none head rows = .ok t) : Bounded t.state := by
  obtain ⟨-, h⟩ := ensure_bind_ok.mp h
  obtain ⟨current, -, h⟩ := bind_eq_ok.mp h
  cases h
  refine ⟨Nat.zero_le _, fun k f hf => ?_, .inl (Nat.zero_le _)⟩
  have hf : (current.mapVal (newFinding head)).find? k = some f := hf
  rw [SortedMap.find?_mapVal, Option.map_eq_some_iff] at hf
  obtain ⟨row, -, rfl⟩ := hf
  exact Nat.zero_le _

/-- The latest state is that of the last record with one. -/
theorem latestState_of_record (h : latestStateRecord records = some record) :
    record ∈ records ∧ latestState records = record.loopState := by
  refine ⟨List.mem_reverse.mp (List.mem_of_find?_eq_some h), ?_⟩
  have hfind : ∀ rows : List LoopRecord, rows.find? (·.loopState.isSome) = some record →
      rows.findSome? (·.loopState) = record.loopState := by
    intro rows
    induction rows with
    | nil => exact fun h => nomatch h
    | cons row rows ih =>
      intro h
      cases hrow : row.loopState with
      | none =>
        rw [List.find?_cons_of_neg (by simp [hrow])] at h
        rw [List.findSome?_cons_of_isNone (by simp [hrow])]
        exact ih h
      | some s =>
        rw [List.find?_cons_of_pos (by simp [hrow])] at h
        obtain rfl := Option.some.inj h
        rw [List.findSome?_cons_of_isSome (by simp [hrow])]
  exact hfind _ h

theorem applySupersession_ok


    (h : applySupersession host chain head expectedTip request rows commits = .ok transition) :
    transition.changed = false ∧ latestState chain.records = some transition.state ∨
      ∃ previous stop canonical proposal, latestState chain.records = some previous ∧
        previous.hardStop = some stop ∧ canonicalObservations rows = .ok canonical ∧
        transition.state = { previous with
          hardStop := some { stop with
            attemptedHeadSha := head
            observationDigest := reviewObservationDigest host head canonical
            proposalDigest := proposal
            extensionApplied := false } } := by
  obtain ⟨_, -, h⟩ := bind_eq_ok.mp h
  obtain ⟨-, h⟩ := ensure_bind_ok.mp h
  obtain ⟨fromHead, -, h⟩ := bind_eq_ok.mp h
  obtain ⟨-, h⟩ := ensure_bind_ok.mp h
  obtain ⟨-, h⟩ := ensure_bind_ok.mp h
  obtain ⟨canonical, hcanonical, h⟩ := bind_eq_ok.mp h
  obtain ⟨latest, hlatest, h⟩ := orErr_bind_ok.mp h
  obtain ⟨-, hstate⟩ := latestState_of_record hlatest
  dsimp only at h
  split at h
  next state hretried =>
    obtain ⟨-, h⟩ := ensure_bind_ok.mp h
    cases h
    refine .inl ⟨rfl, ?_⟩
    split at hretried
    next hpayload =>
      split at hretried
      · cases hretried
        rw [hstate, ReviewStatePreimage.loopState, hpayload]
      · cases hretried
    next => cases hretried
  next =>
    obtain ⟨-, h⟩ := ensure_bind_ok.mp h
    obtain ⟨previous, hprevious, h⟩ := orErr_bind_ok.mp h
    obtain ⟨stop, hstop, h⟩ := orErr_bind_ok.mp h
    obtain ⟨-, h⟩ := ensure_bind_ok.mp h
    obtain ⟨proposal, -, h⟩ := bind_eq_ok.mp h
    cases h
    exact .inr ⟨previous, stop, canonical, proposal, hstate.trans hprevious, hstop, hcanonical, rfl⟩

theorem Bounded.superseded


    (hlatest : ∀ s, latestState chain.records = some s → Bounded s)
    (h : applySupersession host chain head expectedTip request rows commits = .ok transition) :
    Bounded transition.state := by
  rcases applySupersession_ok h with ⟨-, hstate⟩ | ⟨previous, stop, canonical, proposal, hstate,
    hstop, -, hnext⟩
  · exact hlatest _ hstate
  · have hprevious := hlatest _ hstate
    rw [hnext]
    refine ⟨hprevious.round, hprevious.reopens, hprevious.noProgress.imp id ?_⟩
    rintro ⟨hdebt, stop', hstop', hcode, -⟩
    obtain rfl : stop = stop' := Option.some.inj (hstop.symm.trans hstop')
    exact ⟨hdebt, _, rfl, hcode, rfl⟩

theorem acceptFinding_reopens (finding : Option ReviewLoopFinding) (row : ReviewFindingObservation) :
    (acceptFinding head finding row).reopenCount = (finding.map (·.reopenCount)).getD 0 := by
  cases finding <;> rfl

theorem Bounded.accepted {request : AcceptanceRequest}
    {transition : ReceiptTransition AcceptanceReceipt}
    (hlatest : ∀ s, latestState chain.records = some s → Bounded s)
    (howed : ∀ s, latestState chain.records = some s →
      s.noProgressRounds ≤ s.budget.maxNoProgressRounds)
    (h : applyAcceptance host chain head expectedTip request rows approval = .ok transition) :
    Bounded transition.state := by
  obtain ⟨_, -, h⟩ := bind_eq_ok.mp h
  obtain ⟨-, h⟩ := ensure_bind_ok.mp h
  obtain ⟨comment, -, h⟩ := orErr_bind_ok.mp h
  obtain ⟨target, -, h⟩ := orErr_bind_ok.mp h
  obtain ⟨⟨path, fragment⟩, -, h⟩ := orErr_bind_ok.mp h
  obtain ⟨-, h⟩ := ensure_bind_ok.mp h
  obtain ⟨current, -, h⟩ := bind_eq_ok.mp h
  obtain ⟨attempted, -, h⟩ := bind_eq_ok.mp h
  obtain ⟨-, h⟩ := ensure_bind_ok.mp h
  obtain ⟨accepted, -, h⟩ := bind_eq_ok.mp h
  obtain ⟨-, h⟩ := ensure_bind_ok.mp h
  obtain ⟨source, -, h⟩ := orErr_bind_ok.mp h
  obtain ⟨stop, -, h⟩ := orErr_bind_ok.mp h
  obtain ⟨-, h⟩ := ensure_bind_ok.mp h
  obtain ⟨proposal, -, h⟩ := bind_eq_ok.mp h
  obtain ⟨latest, hrecord, h⟩ := orErr_bind_ok.mp h
  obtain ⟨-, hstate⟩ := latestState_of_record hrecord
  dsimp only at h
  split at h
  next state hretried =>
    obtain ⟨-, h⟩ := ensure_bind_ok.mp h
    cases h
    split at hretried
    next hpayload =>
      split at hretried
      · cases hretried
        exact hlatest _ (by rw [hstate, ReviewStatePreimage.loopState, hpayload])
      · cases hretried
    next => cases hretried
  next =>
    obtain ⟨-, h⟩ := ensure_bind_ok.mp h
    obtain ⟨previous, hprevious, h⟩ := orErr_bind_ok.mp h
    obtain ⟨-, h⟩ := ensure_bind_ok.mp h
    obtain ⟨findings, hfindings, h⟩ := bind_eq_ok.mp h
    cases h
    have hbounded := hlatest _ (hstate.trans hprevious)
    have hwithin := howed _ (hstate.trans hprevious)
    obtain ⟨hnamed, hunnamed⟩ := (SortedMap.upsertAll_eq_ok current.keys_nodup).mp hfindings
    refine ⟨hbounded.round, fun k f hf => ?_, .inl hwithin⟩
    by_cases hk : k ∈ current.rows.map (·.1)
    · obtain ⟨row, hrow, rfl⟩ := List.mem_map.mp hk
      obtain ⟨v, hv, hfound⟩ := hnamed row hrow
      obtain rfl : f = v := Option.some.inj (hf.symm.trans hfound)
      cases hv
      rw [acceptFinding_reopens]
      cases hbefore : previous.findings.find? row.1 with
      | none => exact Nat.zero_le _
      | some before => exact hbounded.reopens _ _ hbefore
    · have hf : findings.find? k = some f := hf
      rw [hunnamed k hk] at hf
      exact hbounded.reopens k f hf

/-! ## Corrections -/

structure BudgetsKept (records : List LoopRecord) : Prop where
  bounded : ∀ record ∈ records, ∀ s, record.loopState = some s → Bounded s
  followed : ∀ before record after s previous, records = before ++ record :: after →
    ordinaryState record = some s → s.hardStop = none → latestState before = some previous →
      previous.headSha ≠ s.headSha → s.budget = previous.budget ∧
        previous.noProgressRounds ≤ previous.budget.maxNoProgressRounds

theorem BudgetsKept.latest (h : BudgetsKept records)
    (hlatest : latestState records = some s) : Bounded s := by
  obtain ⟨record, hmem, hstate⟩ := List.exists_of_findSome?_eq_some hlatest
  exact h.bounded record (List.mem_reverse.mp hmem) s hstate

theorem restoreFindings_find? {keys : List String}
    {findings findings' : SortedMap String ReviewLoopFinding} {P : ReviewLoopFinding → Prop}
    (h : restoreFindings target prior keys findings = .ok findings')
    (hprior : ∀ k f, prior.findings.find? k = some f → P f)
    (hfindings : ∀ k f, findings.find? k = some f → P f) :
    ∀ k f, findings'.find? k = some f → P f := by
  induction keys generalizing findings with
  | nil =>
    cases h
    exact hfindings
  | cons key keys ih =>
    obtain ⟨before, hbefore, h⟩ := orErr_bind_ok.mp h
    obtain ⟨-, h⟩ := ensure_bind_ok.mp h
    refine ih h fun k f hf => ?_
    by_cases hk : k = key
    · subst hk
      rw [SortedMap.find?_insert_self] at hf
      obtain rfl := Option.some.inj hf
      exact hprior k _ (Option.filter_eq_some_iff.mp hbefore).1
    · rw [SortedMap.find?_insert_of_ne _ _ hk] at hf
      exact hfindings k f hf

theorem loopState_of_ordinary (h : ordinaryState record = some s) :
    record.loopState = some s := by
  unfold ordinaryState at h
  split at h
  next hpayload =>
    cases h
    rw [ReviewStatePreimage.loopState, hpayload]
  next => cases h

theorem correctionContext_ok {request : CorrectionRequest}
    (h : correctionContext records head request = .ok (target, prior)) :
    ∃ before record after, records = before ++ record :: after ∧
      ordinaryState record = some target ∧ latestState before = some prior ∧
      target.hardStop = none ∧ target.headSha = head ∧ prior.headSha ≠ head := by
  obtain ⟨_, -, h⟩ := bind_eq_ok.mp h
  obtain ⟨index, -, h⟩ := orErr_bind_ok.mp h
  obtain ⟨target', htarget, h⟩ := orErr_bind_ok.mp h
  obtain ⟨prior', hprior, h⟩ := orErr_bind_ok.mp h
  obtain ⟨latest, -, h⟩ := orErr_bind_ok.mp h
  obtain ⟨hheads, h⟩ := ensure_bind_ok.mp h
  obtain ⟨-, h⟩ := ensure_bind_ok.mp h
  obtain ⟨-, h⟩ := ensure_bind_ok.mp h
  cases h
  obtain ⟨record, hrecord, hstate⟩ := Option.bind_eq_some_iff.mp htarget
  obtain ⟨hindex, rfl⟩ := List.getElem?_eq_some_iff.mp hrecord
  simp only [not_or, not_not] at hheads
  refine ⟨records.take index, records[index], records.drop (index + 1), ?_, hstate, hprior, ?_,
    hheads.1, hheads.2.2.1⟩
  · rw [← List.drop_eq_getElem_cons hindex, List.take_append_drop]
  · simpa using hheads.2.2.2

theorem restore_ok {receipt : CorrectionReceipt} (hs : BudgetsKept records)
    (h : restore host records head receipt = .ok s') : Bounded s' ∧ s'.headSha = head ∧
      (s'.hardStop = none ∨ ∃ corrected current stop,
        canonicalObservations (inventoryRows corrected) = .ok current ∧
        corrected.findings = s'.findings ∧ s'.hardStop = some stop ∧
        stop.code = "review_no_progress" ∧ stop.attemptedHeadSha = head ∧
        stop.observationDigest = reviewObservationDigest host head current) := by
  obtain ⟨attempted, -, h⟩ := bind_eq_ok.mp h
  obtain ⟨-, h⟩ := ensure_bind_ok.mp h
  obtain ⟨⟨target, prior⟩, hcontext, h⟩ := bind_eq_ok.mp h
  obtain ⟨-, h⟩ := ensure_bind_ok.mp h
  obtain ⟨findings, hfindings, h⟩ := bind_eq_ok.mp h
  obtain ⟨_, -, h⟩ := bind_eq_ok.mp h
  obtain ⟨before, record, after, hsplit, htarget, hprior, hopen, hhead, hmoved⟩ :=
    correctionContext_ok hcontext
  obtain ⟨hbudget, howed⟩ :=
    hs.followed before record after target prior hsplit htarget hopen hprior (hhead ▸ hmoved)
  have htargetBounded : Bounded target :=
    hs.bounded record (by rw [hsplit]; simp) target (loopState_of_ordinary htarget)
  have hpriorBounded : Bounded prior := by
    obtain ⟨other, hother, hstate⟩ := List.exists_of_findSome?_eq_some hprior
    exact hs.bounded other (by rw [hsplit]; exact List.mem_append_left _ (List.mem_reverse.mp hother))
      prior hstate
  have hreopens := restoreFindings_find? (P := fun f =>
      f.reopenCount ≤ target.budget.maxAutoReopensPerFingerprint) hfindings
    (fun k f hf => hbudget ▸ hpriorBounded.reopens k f hf) htargetBounded.reopens
  have htargetOwed : target.noProgressRounds ≤ target.budget.maxNoProgressRounds :=
    htargetBounded.noProgress_of fun stop hstop => by rw [hopen] at hstop; cases hstop
  have hrecount : u32Succ prior.noProgressRounds ≤ target.budget.maxNoProgressRounds + 1 := by
    rw [hbudget]
    exact (u32Succ_le _).trans (Nat.add_le_add_right howed 1)
  dsimp only at h
  generalize hc : (if 0 < openBlocking (·.status) (·.blocking) findings ∧
      openBlocking (·.status) (·.blocking) prior.findings ≤
        openBlocking (·.status) (·.blocking) findings then
    ({ target with
        findings
        noProgressRounds := max target.noProgressRounds (u32Succ prior.noProgressRounds) } :
      ReviewLoopState)
    else { target with findings }) = corrected at h
  have hcorrected : corrected.round = target.round ∧ corrected.budget = target.budget ∧
      corrected.findings = findings ∧ corrected.hardStop = none ∧ corrected.headSha = target.headSha ∧
      corrected.noProgressRounds ≤ target.budget.maxNoProgressRounds + 1 := by
    rw [← hc]
    split
    · exact ⟨rfl, rfl, rfl, hopen, rfl, max_le (Nat.le_succ_of_le htargetOwed) hrecount⟩
    · exact ⟨rfl, rfl, rfl, hopen, rfl, Nat.le_succ_of_le htargetOwed⟩
  obtain ⟨hround, hcbudget, hcfindings, hcstop, hchead, hcount⟩ := hcorrected
  split at h
  case isTrue hover =>
    obtain ⟨field, current, proposal, -, hcurrent, rfl⟩ := recordReviewLoopHardStop_ok h
    refine ⟨⟨?_, fun k f hf => ?_, .inr ⟨?_, _, rfl, rfl, rfl⟩⟩, hchead.trans hhead,
      .inr ⟨corrected, current, _, hcurrent, rfl, rfl, rfl, rfl, rfl⟩⟩
    · show corrected.round ≤ corrected.budget.maxRepairRounds
      rw [hround, hcbudget]
      exact htargetBounded.round
    · show f.reopenCount ≤ corrected.budget.maxAutoReopensPerFingerprint
      rw [hcbudget]
      exact hreopens k f (hcfindings ▸ hf)
    · show corrected.noProgressRounds = corrected.budget.maxNoProgressRounds + 1
      rw [hcbudget] at hover ⊢
      omega
  case isFalse hwithin =>
    cases h
    refine ⟨⟨?_, fun k f hf => ?_, .inl (Nat.le_of_not_lt hwithin)⟩, hchead.trans hhead, .inl hcstop⟩
    · rw [hround, hcbudget]
      exact htargetBounded.round
    · rw [hcbudget]
      exact hreopens k f (hcfindings ▸ hf)

theorem applyCorrection_ok
    {request : CorrectionRequest} {transition : ReceiptTransition CorrectionReceipt}
    (h : applyCorrection host chain head expectedTip request rows = .ok transition) :
    transition.changed = false ∧ latestState chain.records = some transition.state ∨
      ∃ receipt, restore host chain.records head receipt = .ok transition.state := by
  obtain ⟨_, -, h⟩ := bind_eq_ok.mp h
  obtain ⟨-, h⟩ := ensure_bind_ok.mp h
  obtain ⟨inventory, -, h⟩ := bind_eq_ok.mp h
  obtain ⟨attempted, -, h⟩ := bind_eq_ok.mp h
  dsimp only at h
  split at h
  next record state correction hretried =>
    obtain ⟨-, h⟩ := ensure_bind_ok.mp h
    cases h
    obtain ⟨latest, hlatest, hretried⟩ := Option.bind_eq_some_iff.mp hretried
    obtain ⟨-, hstate⟩ := latestState_of_record hlatest
    refine .inl ⟨rfl, ?_⟩
    split at hretried
    next hpayload =>
      split at hretried
      · cases hretried
        rw [hstate, ReviewStatePreimage.loopState, hpayload]
      · cases hretried
    next => cases hretried
  next =>
    obtain ⟨⟨target, prior⟩, -, h⟩ := bind_eq_ok.mp h
    obtain ⟨-, h⟩ := ensure_bind_ok.mp h
    obtain ⟨corrected, hrestore, h⟩ := bind_eq_ok.mp h
    obtain ⟨-, h⟩ := ensure_bind_ok.mp h
    cases h
    exact .inr ⟨_, hrestore⟩

end NilsCli.Review
