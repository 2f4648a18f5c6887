import NilsCli.Review.LoopSteps

/-!
# Runs of the review loop

Every record of a run is written by one of the operations of the loop, and their states stay within
their budgets (`LoopRun.kept`).
-/

namespace NilsCli.Review

open Lib

variable {host : LoopHost} {s s' : ReviewLoopState} {head : String}
  {rows : List ReviewFindingObservation} {current : SortedMap String ReviewFindingObservation}
  {t : ReviewLoopTransition} {e : ForgeError}

/-! ## Runs -/

inductive LoopStep (host : LoopHost) (chain : LoopChain) (record : LoopRecord) : Prop
  | other : record.loopState = none → LoopStep host chain record
  | observed {head : String} {rows : List ReviewFindingObservation} {t : ReviewLoopTransition} :
      observeReviewLoop host (latestState chain.records) head rows = .ok t →
      record.payload = .reviewLoop t.state → LoopStep host chain record
  /-- An observation that took the open findings it left out for fixed, as earlier versions did. -/
  | inferred {s previous : ReviewLoopState} : latestState chain.records = some previous →
      previous.noProgressRounds ≤ previous.budget.maxNoProgressRounds → Bounded s →
      s.budget = previous.budget → record.payload = .reviewLoop s → LoopStep host chain record
  | stopped {s s' : ReviewLoopState} {head tip : String} {rows : List ReviewFindingObservation}
      {e : ForgeError} : latestState chain.records = some s →
      (∀ stop, s.hardStop = some stop → stop.extensionApplied = true) →
      observeReviewLoop host (some s) head rows = .error e →
      recordReviewLoopHardStop host s head rows tip e = .ok s' →
      record.payload = .reviewLoop s' → LoopStep host chain record
  | extended {s s' : ReviewLoopState} {proposal approval code field : String} {increment : Nat} :
      latestState chain.records = some s →
      applyReviewLoopExtension s proposal approval code field increment = .ok s' →
      record.payload = .reviewLoop s' → LoopStep host chain record
  | raised {s s' : ReviewLoopState} {tip proposal approval code field : String} {increment : Nat} :
      latestState chain.records = some s →
      extendCeiling host s tip proposal approval code field increment = .ok s' →
      record.payload = .reviewLoop s' → LoopStep host chain record
  | corrected {head : String} {expectedTip : Option String} {request : CorrectionRequest}
      {rows : List ReviewFindingObservation} {c : ReceiptTransition CorrectionReceipt} :
      applyCorrection host chain head expectedTip request rows = .ok c →
      record.payload = .reviewLoopCorrection c.state (.correction c.receipt) →
      LoopStep host chain record
  | superseded {head : String} {expectedTip : Option String} {request : SupersessionRequest}
      {rows : List ReviewFindingObservation} {commits : List String}
      {c : ReceiptTransition SupersessionReceipt} :
      applySupersession host chain head expectedTip request rows commits = .ok c →
      record.payload = .reviewLoopSupersession c.state (.supersession c.receipt) →
      LoopStep host chain record
  | accepted {head approval : String} {expectedTip : Option String} {request : AcceptanceRequest}
      {rows : List ReviewFindingObservation} {c : ReceiptTransition AcceptanceReceipt} :
      (∀ s, latestState chain.records = some s →
        s.noProgressRounds ≤ s.budget.maxNoProgressRounds) →
      applyAcceptance host chain head expectedTip request rows approval = .ok c →
      record.payload = .reviewLoopAcceptance c.state (.acceptance c.receipt) →
      LoopStep host chain record

inductive LoopRun (host : LoopHost) : LoopChain → Prop
  | empty : LoopRun host ⟨[], none, []⟩
  | append {chain : LoopChain} {record : LoopRecord} (ignored : List String) : LoopRun host chain →
      LoopStep host chain record →
      LoopRun host ⟨chain.records ++ [record], some record.recordDigest, ignored⟩

variable {chain : LoopChain} {record : LoopRecord}

theorem LoopStep.bounded (hstep : LoopStep host chain record) (hkept : BudgetsKept chain.records)
    (hs : record.loopState = some s) : Bounded s := by
  have hstate : ∀ {s'}, (record.payload = .reviewLoop s' ∨
      (∃ r, record.payload = .reviewLoopCorrection s' r) ∨
      (∃ r, record.payload = .reviewLoopSupersession s' r) ∨
      ∃ r, record.payload = .reviewLoopAcceptance s' r) → s = s' := by
    rintro s' (hpayload | ⟨r, hpayload⟩ | ⟨r, hpayload⟩ | ⟨r, hpayload⟩) <;>
    · rw [ReviewStatePreimage.loopState, hpayload] at hs
      exact (Option.some.inj hs).symm
  cases hstep with
  | other h => cases h.symm.trans hs
  | observed h hpayload =>
    rw [hstate (.inl hpayload)]
    cases hlatest : latestState chain.records with
    | none => exact bounded_first (hlatest ▸ h)
    | some previous =>
      rw [hlatest] at h
      exact ((hkept.latest hlatest).observed h).1
  | inferred _ _ hbounded _ hpayload =>
    rw [hstate (.inl hpayload)]
    exact hbounded
  | stopped hlatest hstop _ h hpayload =>
    rw [hstate (.inl hpayload)]
    exact (hkept.latest hlatest).stopped ((hkept.latest hlatest).noProgress_of hstop) h
  | extended hlatest h hpayload =>
    rw [hstate (.inl hpayload)]
    exact (hkept.latest hlatest).extended h
  | raised hlatest h hpayload =>
    rw [hstate (.inl hpayload)]
    exact (hkept.latest hlatest).raised h
  | corrected h hpayload =>
    rw [hstate (.inr (.inl ⟨_, hpayload⟩))]
    rcases applyCorrection_ok h with ⟨-, hlatest⟩ | ⟨receipt, hrestore⟩
    · exact hkept.latest hlatest
    · exact (restore_ok hkept hrestore).1
  | superseded h hpayload =>
    rw [hstate (.inr (.inr (.inl ⟨_, hpayload⟩)))]
    exact .superseded (fun _ => hkept.latest) h
  | accepted howed h hpayload =>
    rw [hstate (.inr (.inr (.inr ⟨_, hpayload⟩)))]
    exact .accepted (fun _ => hkept.latest) howed h

theorem LoopStep.followed {previous : ReviewLoopState} (hstep : LoopStep host chain record)
    (hkept : BudgetsKept chain.records) (hs : ordinaryState record = some s) (hopen : s.hardStop = none)
    (hlatest : latestState chain.records = some previous) (hmoved : previous.headSha ≠ s.headSha) :
    s.budget = previous.budget ∧
      previous.noProgressRounds ≤ previous.budget.maxNoProgressRounds := by
  have hordinary : record.payload = .reviewLoop s := by
    unfold ordinaryState at hs
    split at hs
    next hpayload => cases hs; exact hpayload
    next => cases hs
  cases hstep with
  | other h => cases h.symm.trans (loopState_of_ordinary hs)
  | observed h hpayload =>
    cases hordinary.symm.trans hpayload
    rw [hlatest] at h
    exact ((hkept.latest hlatest).observed h).2
  | inferred hprevious howed _ hbudget hpayload =>
    cases hordinary.symm.trans hpayload
    obtain rfl := Option.some.inj (hlatest.symm.trans hprevious)
    exact ⟨hbudget, howed⟩
  | stopped _ _ _ h hpayload =>
    cases hordinary.symm.trans hpayload
    obtain ⟨field, current, proposal, -, -, rfl⟩ := recordReviewLoopHardStop_ok h
    cases hopen
  | extended _ h hpayload =>
    cases hordinary.symm.trans hpayload
    obtain ⟨stop, budget, -, -, -, -, -, -, rfl⟩ := applyReviewLoopExtension_ok h
    cases hopen
  | raised hprevious h hpayload =>
    cases hordinary.symm.trans hpayload
    obtain rfl := Option.some.inj (hlatest.symm.trans hprevious)
    exact absurd (extendCeiling_ok h).2.1.symm hmoved
  | corrected _ hpayload => cases hordinary.symm.trans hpayload
  | superseded _ hpayload => cases hordinary.symm.trans hpayload
  | accepted _ _ hpayload => cases hordinary.symm.trans hpayload

theorem LoopRun.kept (hrun : LoopRun host chain) : BudgetsKept chain.records := by
  induction hrun with
  | empty =>
    refine ⟨fun record h => absurd h List.not_mem_nil, fun before record after s previous h => ?_⟩
    exact absurd h.symm (List.append_ne_nil_of_right_ne_nil _ (List.cons_ne_nil _ _))
  | append ignored hrun hstep ih =>
    refine ⟨fun other hother s hs => ?_,
      fun before other after s previous hsplit hs hopen hlatest hmoved => ?_⟩
    · rcases List.mem_append.mp hother with hother | hother
      · exact ih.bounded other hother s hs
      · obtain rfl := List.mem_singleton.mp hother
        exact hstep.bounded ih hs
    · rcases List.eq_nil_or_concat after with rfl | ⟨init, last, rfl⟩
      · obtain ⟨hbefore, hother⟩ := List.append_inj' hsplit rfl
        cases hother
        subst hbefore
        exact hstep.followed ih hs hopen hlatest hmoved
      · rw [List.concat_eq_append, ← List.cons_append, ← List.append_assoc] at hsplit
        obtain ⟨hrecords, -⟩ := List.append_inj' hsplit rfl
        exact ih.followed before other init s previous hrecords hs hopen hlatest hmoved

/-- In every run an extension lets exactly the attempt of its stop through, whether an observation, a
supersession or a correction has recorded the stop. Where a correction has left a round without
progress over its budget, the stop must still be at the head of the state. -/
theorem extension_releases_attempt (hrun : LoopRun host chain) {proposal approval field : String}
    {increment : Nat} {extended : ReviewLoopState} :
    (∀ s stopped head rows tip e, latestState chain.records = some s →
      observeReviewLoop host (some s) head rows = .error e →
      recordReviewLoopHardStop host s head rows tip e = .ok stopped →
      applyReviewLoopExtension stopped proposal approval e.kind field increment = .ok extended →
      s.noProgressRounds ≤ s.budget.maxNoProgressRounds ∨ head = s.headSha →
      ∃ current, canonicalObservations rows = .ok current ∧
        Releases host extended head current e.kind) ∧
    (∀ head tip request rows commits transition stop,
      applySupersession host chain head tip request rows commits = .ok transition →
      transition.changed = true → transition.state.hardStop = some stop →
      applyReviewLoopExtension transition.state proposal approval stop.code field increment =
        .ok extended →
      transition.state.noProgressRounds ≤ transition.state.budget.maxNoProgressRounds ∨
        head = transition.state.headSha →
      ∃ current, canonicalObservations rows = .ok current ∧
        Releases host extended head current stop.code) ∧
    ∀ head tip request rows transition stop,
      applyCorrection host chain head tip request rows = .ok transition →
      transition.changed = true → transition.state.hardStop = some stop →
      applyReviewLoopExtension transition.state proposal approval stop.code field increment =
        .ok extended →
      ∃ current, canonicalObservations (inventoryRows transition.state) = .ok current ∧
        Releases host extended head current stop.code := by
  have hkept := hrun.kept
  refine ⟨fun s stopped head rows tip e hlatest hrefused hstop hextended howed => ?_,
    fun head tip request rows commits transition stop h hchanged hstop hextended howed => ?_,
    fun head tip request rows transition stop h hchanged hstop hextended => ?_⟩
  · have hwithin := (hkept.latest hlatest).within.stopped hstop
    obtain ⟨_, current, recorded, -, hcurrent, rfl⟩ := recordReviewLoopHardStop_ok hstop
    exact ⟨current, hcurrent, hwithin.releases rfl rfl howed hextended⟩
  · have hwithin := (Bounded.superseded (fun _ => hkept.latest) h).within
    rcases applySupersession_ok h with ⟨hsame, -⟩ | ⟨previous, old, current, recorded, -, -,
      hcurrent, hstate⟩
    · exact nomatch hchanged.symm.trans hsame
    · rw [hstate] at hstop
      cases hstop
      exact ⟨current, hcurrent, hwithin.releases (by rw [hstate]) rfl howed hextended⟩
  · rcases applyCorrection_ok h with ⟨hsame, -⟩ | ⟨receipt, hrestore⟩
    · exact nomatch hchanged.symm.trans hsame
    · obtain ⟨hbounded, hhead, hopen | ⟨corrected, current, recorded, hcurrent, hfindings, hrecorded,
        -, rfl, hdigest⟩⟩ := restore_ok hkept hrestore
      · exact nomatch hopen.symm.trans hstop
      · obtain rfl : stop = recorded := Option.some.inj (hstop.symm.trans hrecorded)
        have hrows : inventoryRows transition.state = inventoryRows corrected := by
          unfold inventoryRows
          rw [hfindings]
        exact ⟨current, by rw [hrows]; exact hcurrent,
          hbounded.within.releases hrecorded hdigest (.inr hhead.symm) hextended⟩

/-! ## An attempt that two checks refuse -/

def settledRows : List ReviewFindingObservation :=
  [sampleRow "a:b:c" .fixed, sampleRow "a:b:d" .accepted]

def reopenedRows : List ReviewFindingObservation :=
  [sampleRow "a:b:c" .open_,
    { sampleRow "a:b:d" .accepted with rootCauseFingerprint := some "a:b:d" }]

def settledFinding (status : ReviewFindingStatus) : ReviewLoopFinding where
  rootCauseFingerprint := none
  status := status
  blocking := false
  firstSeenHead := "h1"
  lastSeenHead := "h1"
  seenCount := 1
  reopenCount := 0
  threads := []

def settledState : ReviewLoopState where
  headSha := "h1"
  round := 0
  noProgressRounds := 0
  budget := .default
  findings := (SortedMap.empty.insert "a:b:c" (settledFinding .fixed)).insert "a:b:d"
    (settledFinding .accepted)
  extensions := []
  hardStop := none

def settledRecord : LoopRecord :=
  { schema := reviewStateSchema, repository := "o/r", pr := 1, expectedHead := "h1"
    generation := 0, previousDigest := none, payload := .reviewLoop settledState
    assignmentGeneration := none, recordDigest := "sha256:0" }

theorem loopRun_settled :
    LoopRun sampleLoopHost ⟨[settledRecord], some settledRecord.recordDigest, []⟩ :=
  have hobserve : observeReviewLoop sampleLoopHost none "h1" settledRows =
      .ok ⟨settledState, true⟩ := by decide
  .append [] .empty (.observed hobserve rfl)

/-- The stop of the reopened finding. -/
def reopenedStop : ReviewLoopHardStop where
  code := "review_finding_reopened"
  budgetField := "max_auto_reopens_per_fingerprint"
  increment := 1
  proposalDigest := "sha256:0"
  attemptedHeadSha := "h2"
  observationDigest := "sha256:0"
  extensionApplied := false

def extendedState : ReviewLoopState :=
  { settledState with
    budget := { ReviewLoopBudget.default with maxAutoReopensPerFingerprint := 1 }
    extensions := [⟨"sha256:0", "u", "max_auto_reopens_per_fingerprint", 1⟩]
    hardStop := some { reopenedStop with extensionApplied := true } }

def reopenedError : ForgeError :=
  fail "review_finding_reopened" "a fixed lifecycle finding reappeared"

theorem observe_reopened :
    observeReviewLoop sampleLoopHost (some settledState) "h2" reopenedRows = .error reopenedError := by
  decide

theorem record_reopened : recordReviewLoopHardStop sampleLoopHost settledState "h2" reopenedRows
    "sha256:0" reopenedError = .ok { settledState with hardStop := some reopenedStop } := by
  decide

theorem extend_reopened : applyReviewLoopExtension { settledState with hardStop := some reopenedStop }
    "sha256:0" "u" reopenedError.kind "max_auto_reopens_per_fingerprint" 1 = .ok extendedState := by
  decide

theorem extension_releases_attempt_reopened : ∃ current,
    canonicalObservations reopenedRows = .ok current ∧
      Releases sampleLoopHost extendedState "h2" current reopenedError.kind :=
  (extension_releases_attempt loopRun_settled).1 settledState _ "h2" reopenedRows _ reopenedError rfl
    observe_reopened record_reopened extend_reopened (.inl (Nat.zero_le _))

/-- The released attempt is refused for the root cause. -/
theorem extension_refuses_collision : ¬ ∀ (host : LoopHost) (chain : LoopChain)
    (s stopped extended : ReviewLoopState) (head tip proposal approval field : String)
    (increment : Nat) (rows : List ReviewFindingObservation) (e e' : ForgeError),
    LoopRun host chain → latestState chain.records = some s →
    observeReviewLoop host (some s) head rows = .error e →
    recordReviewLoopHardStop host s head rows tip e = .ok stopped →
    applyReviewLoopExtension stopped proposal approval e.kind field increment = .ok extended →
    observeReviewLoop host (some extended) head rows = .error e' →
    (stopBudgetField e'.kind).isSome ∧ e'.kind ≠ e.kind := by
  intro hall
  have hrefused : observeReviewLoop sampleLoopHost (some extendedState) "h2" reopenedRows =
      .error (fail "review_fingerprint_collision"
        "a lifecycle fingerprint changed root-cause identity") := by
    decide
  have hbudget := (hall sampleLoopHost _ settledState _ extendedState "h2" "sha256:0" "sha256:0" "u"
    "max_auto_reopens_per_fingerprint" 1 reopenedRows reopenedError _ loopRun_settled rfl
    observe_reopened record_reopened extend_reopened hrefused).1
  exact absurd hbudget (by decide)

end NilsCli.Review
