import NilsCli.Review.Repeats

/-!
# Budgets of the review loop

An observation that would go beyond a budget is refused with the code of it (`Overrun`), and the
refusal is recorded as a stop.
-/

namespace NilsCli.Review

open Lib

variable {c : Prop} {budget : ReviewLoopBudget} {code : String} {stop : ReviewLoopHardStop}

variable {field proposal approval : String} {increment : Nat}

variable {host : LoopHost} {s s' : ReviewLoopState} {head : String}
  {rows : List ReviewFindingObservation} {current : SortedMap String ReviewFindingObservation}
  {t : ReviewLoopTransition} {e : ForgeError}

/-! ## Refusals -/

/-- A computation that no budget stops. -/
def Unbudgeted {α : Type} (m : Except ForgeError α) : Prop :=
  ∀ e, m = .error e → stopBudgetField e.kind = none

namespace Unbudgeted

variable {α β : Type} {m : Except ForgeError α} {f : α → Except ForgeError β}

theorem ok (a : α) : Unbudgeted (.ok a : Except ForgeError α) := fun _ h => nomatch h

theorem error (h : stopBudgetField e.kind = none) : Unbudgeted (.error e : Except ForgeError α) :=
  fun _ he => Except.error.inj he ▸ h

theorem ensure [Decidable c] (h : stopBudgetField e.kind = none) :
    Unbudgeted (ensure c e) := fun _ he => ensure_eq_error he ▸ h

theorem orErr {o : Option α} (h : stopBudgetField e.kind = none) : Unbudgeted (orErr o e) := by
  cases o with
  | none => exact error h
  | some a => exact ok a

theorem bind (hm : Unbudgeted m) (hf : ∀ a, Unbudgeted (f a)) : Unbudgeted (m >>= f) := by
  intro e he
  rcases bind_eq_error.mp he with he | ⟨a, -, he⟩
  · exact hm e he
  · exact hf a e he

theorem checkRows {ν : Type} {check : String → ν → Except ForgeError Unit}
    (h : ∀ k v, Unbudgeted (check k v)) (rows : List (String × ν)) :
    Unbudgeted (checkRows check rows) := by
  induction rows with
  | nil => exact ok ()
  | cons row rows ih => exact bind (h _ _) fun _ => ih

end Unbudgeted

theorem validateLifecycleFingerprint_unbudgeted (fingerprint : String) :
    Unbudgeted (validateLifecycleFingerprint fingerprint) := .ensure rfl

theorem validateRoot_unbudgeted (root : Option String) : Unbudgeted (validateRoot root) := by
  cases root with
  | none => exact .ok ()
  | some root => exact validateLifecycleFingerprint_unbudgeted root

theorem validateReviewLoopState_unbudgeted (s : ReviewLoopState) :
    Unbudgeted (validateReviewLoopState s) := by
  refine .bind (.ensure rfl) fun _ => .bind (.checkRows (fun k f => ?_) _) fun _ => .ensure rfl
  exact .bind (validateLifecycleFingerprint_unbudgeted k) fun _ =>
    .bind (validateRoot_unbudgeted _) fun _ => .bind (.ensure rfl) fun _ => .ensure rfl

theorem checkSameHead_unbudgeted (k : String) (f : ReviewLoopFinding) :
    Unbudgeted (checkSameHead current k f) := by
  unfold checkSameHead
  split
  · exact .ok ()
  · exact .bind (.orErr rfl) fun _ => .bind (.ensure rfl) fun _ => .ensure rfl

theorem not_of_ensure_eq_error [Decidable c] {e' : ForgeError}
    (h : ensure c e = .error e') : ¬ c := by
  intro hc
  rw [ensure, if_pos hc] at h
  cases h

/-- The budget that an observation goes beyond, where its code is the one of a stop. -/
inductive Overrun (s : ReviewLoopState) (headChanged : Bool)
    (current : SortedMap String ReviewFindingObservation) : String → Prop
  | round : s.budget.maxRepairRounds < nextRound s headChanged →
      Overrun s headChanged current "review_round_limit_exceeded"
  | noProgress : s.budget.maxNoProgressRounds < nextNoProgress s headChanged current →
      Overrun s headChanged current "review_no_progress"
  | reopened {k : String} {f : ReviewLoopFinding} : s.findings.find? k = some f →
      s.budget.maxAutoReopensPerFingerprint < u32Succ f.reopenCount →
      Overrun s headChanged current "review_finding_reopened"

theorem observeFinding_refused {headChanged : Bool}
    {before : Option ReviewLoopFinding} {row : ReviewFindingObservation}
    (h : observeFinding budget head headChanged before row = .error e)
    (hcode : stopBudgetField e.kind ≠ none) : ∃ f, before = some f ∧
      e.kind = "review_finding_reopened" ∧
      budget.maxAutoReopensPerFingerprint < u32Succ f.reopenCount := by
  cases before with
  | none => cases h
  | some f =>
    rcases bind_eq_error.mp h with h | ⟨_, -, h⟩
    · cases ensure_eq_error h
      exact absurd rfl hcode
    rcases bind_eq_error.mp h with h | ⟨_, -, h⟩
    · refine ⟨f, rfl, by rw [ensure_eq_error h]; rfl, ?_⟩
      obtain ⟨hreopened, hover⟩ := Classical.not_imp.mp (not_of_ensure_eq_error h)
      rw [if_pos hreopened] at hover
      exact Nat.lt_of_not_le hover
    · dsimp only at h
      split at h
      · split at h
        · cases h
        · cases h
          exact absurd rfl hcode
      · cases h

theorem advance_refused (h : advance s head current = .error e)
    (hcode : stopBudgetField e.kind ≠ none) :
    Overrun s (decide (s.headSha ≠ head)) current e.kind := by
  rcases bind_eq_error.mp h with h | ⟨_, -, h⟩
  · rw [ensure_eq_error h]
    exact .round (Nat.lt_of_not_le (not_of_ensure_eq_error h))
  rcases bind_eq_error.mp h with h | ⟨_, -, h⟩
  · rw [ensure_eq_error h]
    exact .noProgress (Nat.lt_of_not_le (not_of_ensure_eq_error h))
  rcases bind_eq_error.mp h with h | ⟨_, -, h⟩
  · obtain ⟨row, -, h⟩ := SortedMap.upsertAll_eq_error current.keys_nodup h
    obtain ⟨f, hf, hkind, hover⟩ := observeFinding_refused h hcode
    rw [hkind]
    exact .reopened hf hover
  · cases h

theorem observe_refused (hcurrent : canonicalObservations rows = .ok current)
    (hreleased : ∀ stop, s.hardStop = some stop → stop.attemptedHeadSha = head ∧
      stop.observationDigest = reviewObservationDigest host head current ∧
      stop.extensionApplied = true)
    (h : observeReviewLoop host (some s) head rows = .error e)
    (hcode : stopBudgetField e.kind ≠ none) :
    Overrun s (decide (s.headSha ≠ head)) current e.kind := by
  rcases bind_eq_error.mp h with h | ⟨_, -, h⟩
  · cases ensure_eq_error h
    exact absurd rfl hcode
  rw [hcurrent] at h
  change (validateReviewLoopState s >>= _) = _ at h
  rcases bind_eq_error.mp h with h | ⟨_, -, h⟩
  · exact absurd (validateReviewLoopState_unbudgeted s e h) hcode
  have hresumed : resumed host s head current = .ok { s with hardStop := none } :=
    resumed_eq_ok.mpr ⟨rfl, hreleased⟩
  rw [hresumed] at h
  change observeFrom _ head current = _ at h
  have hadvance : advance { s with hardStop := none } head current = .error e := by
    unfold observeFrom at h
    split at h
    · rcases bind_eq_error.mp h with h | ⟨_, -, h⟩
      · cases ensure_eq_error h
        exact absurd rfl hcode
      · exact h
    · split at h
      · cases h
      · rcases bind_eq_error.mp h with h | ⟨_, -, h⟩
        · exact absurd (Unbudgeted.checkRows checkSameHead_unbudgeted _ e h) hcode
        · exact h
  have hover := advance_refused hadvance hcode
  generalize e.kind = code at hover ⊢
  cases hover with
  | round h => exact .round h
  | noProgress h => exact .noProgress h
  | reopened hf h => exact .reopened hf h

/-! ## Budgets -/

/-- One round without progress too many, under a stop that waits for its extension. -/
def Indebted (s : ReviewLoopState) : Prop :=
  s.noProgressRounds = s.budget.maxNoProgressRounds + 1 ∧ ∃ stop, s.hardStop = some stop ∧
    stop.code = "review_no_progress" ∧ stop.extensionApplied = false

/-- A state that is within its budgets. -/
structure Bounded (s : ReviewLoopState) : Prop where
  round : s.round ≤ s.budget.maxRepairRounds
  reopens : ∀ k f, s.findings.find? k = some f →
    f.reopenCount ≤ s.budget.maxAutoReopensPerFingerprint
  noProgress : s.noProgressRounds ≤ s.budget.maxNoProgressRounds ∨ Indebted s

theorem Bounded.noProgress_of (h : Bounded s)
    (hstop : ∀ stop, s.hardStop = some stop → stop.extensionApplied = true) :
    s.noProgressRounds ≤ s.budget.maxNoProgressRounds := by
  refine h.noProgress.resolve_right ?_
  rintro ⟨-, stop, hs, -, hopen⟩
  rw [hstop stop hs] at hopen
  cases hopen

structure Within (s : ReviewLoopState) : Prop where
  round : s.round ≤ s.budget.maxRepairRounds
  reopens : ∀ k f, s.findings.find? k = some f →
    f.reopenCount ≤ s.budget.maxAutoReopensPerFingerprint
  noProgress : s.noProgressRounds ≤ s.budget.maxNoProgressRounds + 1

theorem Bounded.within (h : Bounded s) : Within s := by
  refine ⟨h.round, h.reopens, ?_⟩
  rcases h.noProgress with hle | ⟨hdebt, -⟩
  · exact Nat.le_succ_of_le hle
  · exact le_of_eq hdebt

theorem extend_eq_ok {budget' : ReviewLoopBudget}
    (h : budget.extend field increment = .ok budget') :
    field = "max_repair_rounds" ∧
        budget' = { budget with maxRepairRounds := budget.maxRepairRounds + increment } ∨
      field = "max_no_progress_rounds" ∧
        budget' = { budget with maxNoProgressRounds := budget.maxNoProgressRounds + increment } ∨
      field = "max_auto_reopens_per_fingerprint" ∧
        budget' = { budget with
          maxAutoReopensPerFingerprint := budget.maxAutoReopensPerFingerprint + increment } := by
  have hadd : ∀ {n m : Nat} {f : Nat → ReviewLoopBudget},
      (checkedAdd32 n m).map f = .ok budget' → budget' = f (n + m) := by
    intro n m f hmap
    unfold checkedAdd32 at hmap
    split at hmap
    · cases hmap
      rfl
    · cases hmap
  unfold ReviewLoopBudget.extend at h
  split at h
  next hfield => exact .inl ⟨hfield, hadd h⟩
  split at h
  next hfield => exact .inr (.inl ⟨hfield, hadd h⟩)
  split at h
  next hfield => exact .inr (.inr ⟨hfield, hadd h⟩)
  next => cases h

/-- What an accepted extension has found and done. -/
theorem applyReviewLoopExtension_ok
    (h : applyReviewLoopExtension s proposal approval code field increment = .ok s') :
    ∃ stop budget, s.hardStop = some stop ∧ stop.extensionApplied = false ∧ stop.code = code ∧
      stopBudgetField code = some field ∧ 1 ≤ increment ∧
      s.budget.extend field increment = .ok budget ∧
      s' = { s with
        budget
        extensions := s.extensions ++
          [{ proposalDigest := proposal, approvalReference := approval, budgetField := field
             increment }]
        hardStop := some { stop with extensionApplied := true } } := by
  obtain ⟨stop, hstop, h⟩ := orErr_bind_ok.mp h
  obtain ⟨hmatches, h⟩ := ensure_bind_ok.mp h
  obtain ⟨-, h⟩ := ensure_bind_ok.mp h
  obtain ⟨hincrement, h⟩ := ensure_bind_ok.mp h
  obtain ⟨budget, hbudget, h⟩ := bind_eq_ok.mp h
  simp only [not_or, not_not] at hmatches
  refine ⟨stop, budget, hstop, by simpa using hmatches.1, hmatches.2.1, hmatches.2.2.2.2.2, ?_,
    hbudget, (Except.ok.inj h).symm⟩
  exact Nat.one_le_iff_ne_zero.mpr fun hzero => hincrement (.inl hzero)

theorem recordReviewLoopHardStop_ok {tip : String}
    (h : recordReviewLoopHardStop host s head rows tip e = .ok s') :
    ∃ field current proposal, stopBudgetField e.kind = some field ∧
      canonicalObservations rows = .ok current ∧ s' = { s with
        hardStop := some
          { code := e.kind, budgetField := field, increment := 1, proposalDigest := proposal
            attemptedHeadSha := head
            observationDigest := reviewObservationDigest host head current
            extensionApplied := false } } := by
  obtain ⟨field, hfield, h⟩ := orErr_bind_ok.mp h
  obtain ⟨current, hcurrent, h⟩ := bind_eq_ok.mp h
  obtain ⟨proposal, -, h⟩ := bind_eq_ok.mp h
  exact ⟨field, current, proposal, hfield, hcurrent, (Except.ok.inj h).symm⟩

theorem Bounded.extended (hs : Bounded s)
    (h : applyReviewLoopExtension s proposal approval code field increment = .ok s') :
    Bounded s' := by
  obtain ⟨stop, budget, hstop, -, hcode, hfield, hincrement, hbudget, rfl⟩ :=
    applyReviewLoopExtension_ok h
  have hpaid : s.noProgressRounds ≤ budget.maxNoProgressRounds := by
    rcases hs.noProgress with hle | ⟨hdebt, stop', hstop', hno, -⟩
    · rcases extend_eq_ok hbudget with ⟨-, rfl⟩ | ⟨-, rfl⟩ | ⟨-, rfl⟩
      · exact hle
      · exact Nat.le_add_right_of_le hle
      · exact hle
    · obtain rfl : stop = stop' := Option.some.inj (hstop.symm.trans hstop')
      rw [← hcode, hno] at hfield
      have hfield : field = "max_no_progress_rounds" := (Option.some.inj hfield).symm
      rcases extend_eq_ok hbudget with ⟨hother, -⟩ | ⟨-, rfl⟩ | ⟨hother, -⟩
      · exact absurd (hfield.symm.trans hother) (by decide)
      · rw [hdebt]
        exact Nat.add_le_add_left hincrement _
      · exact absurd (hfield.symm.trans hother) (by decide)
  refine ⟨?_, fun k f hf => ?_, .inl hpaid⟩
  · rcases extend_eq_ok hbudget with ⟨-, rfl⟩ | ⟨-, rfl⟩ | ⟨-, rfl⟩
    · exact Nat.le_add_right_of_le hs.round
    · exact hs.round
    · exact hs.round
  · rcases extend_eq_ok hbudget with ⟨-, rfl⟩ | ⟨-, rfl⟩ | ⟨-, rfl⟩
    · exact hs.reopens k f hf
    · exact hs.reopens k f hf
    · exact Nat.le_add_right_of_le (hs.reopens k f hf)

theorem nextRound_le (s : ReviewLoopState) (headChanged : Bool) :
    nextRound s headChanged ≤ s.round + 1 := by
  unfold nextRound
  split
  · exact Nat.mod_le _ _
  · exact Nat.le_succ _

theorem nextNoProgress_le (s : ReviewLoopState) (headChanged : Bool) :
    nextNoProgress s headChanged current ≤ s.noProgressRounds + 1 := by
  unfold nextNoProgress
  dsimp only
  split
  · exact u32Succ_le _
  · split <;> omega

/-! ## Releases -/

structure Releases (host : LoopHost) (s : ReviewLoopState) (head : String)
    (current : SortedMap String ReviewFindingObservation) (code : String) : Prop where
  others : ∀ head' rows other t, canonicalObservations rows = .ok other →
    (reviewObservationDigest host head other = reviewObservationDigest host head current →
      other = current) →
    observeReviewLoop host (some s) head' rows = .ok t → head' = head ∧ other = current
  attempt : ∀ rows e, canonicalObservations rows = .ok current →
    observeReviewLoop host (some s) head rows = .error e → e.kind ≠ code

theorem not_overrun (hs : Within s)
    (h : applyReviewLoopExtension s proposal approval stop.code field increment = .ok s')
    (headChanged : Bool) (hnoProgress : stop.code = "review_no_progress" →
      nextNoProgress s headChanged current ≤ s.budget.maxNoProgressRounds + 1) :
    ¬ Overrun s' headChanged current stop.code := by
  obtain ⟨stop', budget, hstop', -, hcode, hfield, hincrement, hbudget, rfl⟩ :=
    applyReviewLoopExtension_ok h
  intro hover
  generalize stop.code = code at hover hfield hnoProgress
  cases hover with
  | round hover =>
    have hfield : field = "max_repair_rounds" := (Option.some.inj hfield).symm
    rcases extend_eq_ok hbudget with ⟨-, rfl⟩ | ⟨hother, -⟩ | ⟨hother, -⟩
    · have hnext := nextRound_le s headChanged
      have hround := hs.round
      have hover : s.budget.maxRepairRounds + increment < nextRound s headChanged := hover
      omega
    · exact absurd (hfield.symm.trans hother) (by decide)
    · exact absurd (hfield.symm.trans hother) (by decide)
  | noProgress hover =>
    have hfield : field = "max_no_progress_rounds" := (Option.some.inj hfield).symm
    rcases extend_eq_ok hbudget with ⟨hother, -⟩ | ⟨-, rfl⟩ | ⟨hother, -⟩
    · exact absurd (hfield.symm.trans hother) (by decide)
    · have hnext := hnoProgress rfl
      have hover : s.budget.maxNoProgressRounds + increment <
        nextNoProgress s headChanged current := hover
      omega
    · exact absurd (hfield.symm.trans hother) (by decide)
  | @reopened k f hf hover =>
    have hfield : field = "max_auto_reopens_per_fingerprint" := (Option.some.inj hfield).symm
    rcases extend_eq_ok hbudget with ⟨hother, -⟩ | ⟨hother, -⟩ | ⟨-, rfl⟩
    · exact absurd (hfield.symm.trans hother) (by decide)
    · exact absurd (hfield.symm.trans hother) (by decide)
    · have hreopens := hs.reopens _ _ hf
      have hnext := u32Succ_le f.reopenCount
      have hover : s.budget.maxAutoReopensPerFingerprint + increment < u32Succ f.reopenCount := hover
      omega

theorem Within.releases (hs : Within s) (hstop : s.hardStop = some stop)
    (hattempt : stop.observationDigest = reviewObservationDigest host stop.attemptedHeadSha current)
    (howed : s.noProgressRounds ≤ s.budget.maxNoProgressRounds ∨ stop.attemptedHeadSha = s.headSha)
    (h : applyReviewLoopExtension s proposal approval stop.code field increment = .ok s') :
    Releases host s' stop.attemptedHeadSha current stop.code := by
  obtain ⟨stop', budget, hstop', -, -, hfield, -, -, hs'⟩ := applyReviewLoopExtension_ok h
  obtain rfl : stop = stop' := Option.some.inj (hstop.symm.trans hstop')
  have hextended : s'.hardStop = some { stop with extensionApplied := true } := by rw [hs']
  constructor
  · intro head' rows other t hother hdistinct hobserve
    obtain ⟨-, current', hcurrent', -, hreleased, -⟩ := observeReviewLoop_eq_ok.mp hobserve
    obtain ⟨rfl, hdigest, -⟩ := hreleased _ hextended
    obtain rfl : other = current' := Except.ok.inj (hother.symm.trans hcurrent')
    exact ⟨rfl, hdistinct (hdigest.symm.trans hattempt)⟩
  · intro rows e hcurrent hrefused hkind
    have hover := observe_refused hcurrent (fun last hlast => ?_) hrefused (by simp [hkind, hfield])
    · rw [hkind] at hover
      refine not_overrun hs h _ (fun _ => ?_) hover
      rcases howed with hle | hsame
      · exact (nextNoProgress_le _ _).trans (Nat.add_le_add_right hle 1)
      · have hunchanged : decide (s'.headSha ≠ stop.attemptedHeadSha) = false := by
          simp [hs', hsame]
        rw [hunchanged]
        exact hs.noProgress
    · obtain rfl := Option.some.inj (hextended.symm.trans hlast)
      exact ⟨rfl, hattempt, rfl⟩

theorem Within.stopped {tip : String} (hs : Within s)
    (h : recordReviewLoopHardStop host s head rows tip e = .ok s') : Within s' := by
  obtain ⟨field, current, proposal, -, -, rfl⟩ := recordReviewLoopHardStop_ok h
  exact ⟨hs.round, hs.reopens, hs.noProgress⟩

end NilsCli.Review
