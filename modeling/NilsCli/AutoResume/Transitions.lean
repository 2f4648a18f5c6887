import NilsCli.AutoResume.System

/-!
# The moves of a recovery

Every entry point, seen from the fields that the properties are about: a recovery moves by one of
fourteen transitions (`Transition`), or it is claimed (`Claimed`).
-/

namespace NilsCli.AutoResume

open Lib List
variable {f : Unit → Outcome} {turn : String} {outcome : Outcome}

variable {reason : String}

open Coordination (CliError)
open Activity (Provider TurnState)

/-! ## Transitions -/

/-- The same recovery of the same turn. -/
@[grind cases] structure Same (s s' : DurableAutoResume) : Prop where
  cause : s'.recoveryCause = s.recoveryCause
  turn : s'.blockedTurnId = s.blockedTurnId
  revision : s'.blockedRevision = s.blockedRevision

/-- No older release has left this state, as far as a Claude session is concerned. -/
@[grind] def NotLegacy (agent : Provider) (s : DurableAutoResume) : Prop :=
  ¬(agent = .claude ∧ legacyUsageWindowTerminal s = true)

inductive Ready (agent : Provider) (s : DurableAutoResume) : DurableAutoResume → Prop
  | claim (henabled : s.enabled = true) (hclaimable : s.state.claimable = true) : Ready agent s s
  | legacy {s₀ : DurableAutoResume} (hagent : agent = .claude)
      (hlegacy : legacyUsageWindowTerminal s = true) (hsame : Same s s₀)
      (henabled : s₀.enabled = true) (hstate : s₀.state = .armed) (hattempt : s₀.attempt = 0)
      (haccounts : s₀.attemptedAccounts = s.attemptedAccounts)
      (hscheduled : s₀.scheduledAt = s.scheduledAt) (hnext : s₀.nextCheckAt = s.nextCheckAt) :
      Ready agent s s₀

inductive Transition (agent : Provider) (P : DurableAutoResume → String → Prop)
    (s s' : DurableAutoResume) : List Entry → Prop
  | enabled (policy : RecoveryPolicy) (now : Int) (h : s' = cleared policy true now) :
      Transition agent P s s' [.enabled]
  | disabled (policy : RecoveryPolicy) (now : Int) (h : s' = cleared policy false now) :
      Transition agent P s s' [.disabled]
  | reset (now : Int) (hwas : s.enabled = true ∧ s.state = .resumed)
      (h : s' = resetEnabledRecovery s now) : Transition agent P s s' [.reset]
  | rearmed {turn : String} {revision : Nat} (henabled : s'.enabled = true)
      (hstate : s'.state = .armed) (hcause : s'.recoveryCause = some .usageExhaustion)
      (hturn : s'.blockedTurnId = some turn) (hrevision : s'.blockedRevision = some revision)
      (hattempt : s'.attempt = 0) (haccounts : s'.attemptedAccounts = []) :
      Transition agent P s s' [.rearmed turn revision]
  | ended {entry : Entry} (hentry : entry = .cancelled ∨ entry = .failed) (hsame : Same s s')
      (henabled : s'.enabled = false) (haccounts : s'.attemptedAccounts = s.attemptedAccounts)
      (hlegacy : NotLegacy agent s') : Transition agent P s s' [entry]
  | checkFailed {s₀ : DurableAutoResume} (hready : Ready agent s s₀)
      (hcause : s₀.recoveryCause ≠ some .providerCapacity) (hsame : Same s₀ s')
      (henabled : s'.enabled = true) (hstate : s'.state = .transientFailure)
      (hattempt : s'.attempt = s₀.attempt + 1) (hbound : s'.attempt < maxTransientAttempts)
      (haccounts : s'.attemptedAccounts = s₀.attemptedAccounts) :
      Transition agent P s s' [.checkFailed]
  | checksExhausted {s₀ : DurableAutoResume} (hready : Ready agent s s₀)
      (hcause : s₀.recoveryCause ≠ some .providerCapacity) (hsame : Same s₀ s')
      (henabled : s'.enabled = false) (hattempt : s'.attempt ≤ s₀.attempt + 1)
      (haccounts : s'.attemptedAccounts = s₀.attemptedAccounts) (hlegacy : NotLegacy agent s') :
      Transition agent P s s' [.failed, .checkFailed]
  | postponed (hready : s.enabled = true ∧ s.state.claimable = true) (hsame : Same s s')
      (henabled : s'.enabled = true) (hstate : s'.state = .transientFailure)
      (hattempt : s'.attempt = s.attempt)
      (haccounts : s'.attemptedAccounts = s.attemptedAccounts) : Transition agent P s s' []
  | armedUsage {turn : String} {revision : Nat} {preserved : Bool} (hwas : s.enabled = true)
      (hidle : ¬(s.recoveryCause = some .providerCapacity ∧ s.state = .checking))
      (hnew : ¬(s.blockedTurnId = some turn ∧ (s.state = .checking ∨ s.state = .resumed)))
      (henabled : s'.enabled = true) (hstate : s'.state = .armed)
      (hcause : s'.recoveryCause = some .usageExhaustion)
      (hturn : s'.blockedTurnId = some turn) (hrevision : s'.blockedRevision = some revision)
      (hpreserved : preserved = true → s.recoveryCause ≠ some .providerCapacity ∧
        s'.attempt = s.attempt ∧ s'.attemptedAccounts = s.attemptedAccounts)
      (hcleared : preserved = false → s'.attempt = 0 ∧ s'.attemptedAccounts = []) :
      Transition agent P s s' [.armed .usageExhaustion turn revision preserved]
  | armedCapacity {turn : String} {revision : Nat} {preserved : Bool} (hknown : P s turn)
      (hagent : agent ≠ .claude)
      (hwas : s.enabled = true)
      (hidle : ¬(s.recoveryCause = some .providerCapacity ∧ s.state = .checking))
      (hnew : ¬(s.blockedTurnId = some turn ∧ s.recoveryCause = some .providerCapacity ∧
        (s.state = .scheduled ∨ s.state = .resumed)))
      (henabled : s'.enabled = true) (hstate : s'.state = .scheduled)
      (hcause : s'.recoveryCause = some .providerCapacity)
      (hturn : s'.blockedTurnId = some turn) (hrevision : s'.blockedRevision = some revision)
      (hpreserved : preserved = true ↔
        s.recoveryCause = some .providerCapacity ∧ s.state = .resumed)
      (hattempt : s'.attempt = if preserved then s.attempt else 0)
      (haccounts : s'.attemptedAccounts = []) :
      Transition agent P s s' [.armed .providerCapacity turn revision preserved]
  | scheduled {s₀ : DurableAutoResume} (hready : Ready agent s s₀)
      (hcause : s₀.recoveryCause ≠ some .providerCapacity) (hsame : Same s₀ s')
      (henabled : s'.enabled = true) (hstate : s'.state = .scheduled)
      (hattempt : s'.attempt ≤ s₀.attempt)
      (haccounts : s'.attemptedAccounts = s₀.attemptedAccounts) :
      Transition agent P s s' [.scheduled]
  | accountQueued {s₀ : DurableAutoResume} {account : String} (hready : Ready agent s s₀)
      (hcause : s₀.recoveryCause ≠ some .providerCapacity) (hsame : Same s₀ s')
      (henabled : s'.enabled = true) (hstate : s'.state = .switchingAccount)
      (hattempt : s'.attempt = s₀.attempt) (hnew : account ∉ s₀.attemptedAccounts)
      (haccounts : ∀ other, other = account ∨ other ∈ s₀.attemptedAccounts →
        other ∈ s'.attemptedAccounts) : Transition agent P s s' [.accountQueued account]
  | woken (hwas : s.enabled = true ∧ s.state = .scheduled) (hsame : Same s s')
      (henabled : s'.enabled = true) (hstate : s'.state = .scheduled)
      (hattempt : s'.attempt = s.attempt)
      (haccounts : s'.attemptedAccounts = s.attemptedAccounts) : Transition agent P s s' []
  | resumed (hwas : s.state = .checking) (hsame : Same s s') (henabled : s'.enabled = s.enabled)
      (hstate : s'.state = .resumed) (hattempt : s'.attempt = s.attempt)
      (haccounts : s'.attemptedAccounts = s.attemptedAccounts) : Transition agent P s s' []

structure Claimed (agent : Provider) (s s' : DurableAutoResume) (activity : TurnState) : Prop where
  ready : ∃ s₀, Ready agent s s₀ ∧ Same s₀ s' ∧
    s'.attemptedAccounts = s₀.attemptedAccounts ∧
    (s₀.recoveryCause = some .providerCapacity →
      s₀.attempt < maxTransientAttempts ∧ s'.attempt = s₀.attempt + 1) ∧
    (s₀.recoveryCause ≠ some .providerCapacity → s'.attempt = s₀.attempt)
  enabled : s'.enabled = true
  state : s'.state = .checking
  eligible : blockedClaimIsEligible (some activity) s' = true

/-- Times that were set are later than the move. -/
structure Later (now : Int) (s s' : DurableAutoResume) : Prop where
  scheduledAt : ∀ at_, s'.scheduledAt = some at_ → s.scheduledAt = some at_ ∨ now < at_
  nextCheckAt : ∀ at_, s'.nextCheckAt = some at_ → s.nextCheckAt = some at_ ∨ now < at_

/-- The moves that a recovery may take; those that write satisfy `T`, and none panics. -/
def Allowed (agent : Provider) (P : DurableAutoResume → String → Prop)
    (T : DurableAutoResume → DurableAutoResume → Prop)
    (s : DurableAutoResume) (activity : TurnState) : Outcome → Prop
  | .ok .keeps => True
  | .ok (.writes s' entries) => Transition agent P s s' entries ∧ T s s'
  | .ok (.claims s') => Claimed agent s s' activity ∧ T s s'
  | .error failure => failure ≠ .indexOutOfBounds

variable {agent : Provider} {P : DurableAutoResume → String → Prop}
  {T : DurableAutoResume → DurableAutoResume → Prop} {s s' : DurableAutoResume} {activity : TurnState} {now : Int}

/-! ## Rules -/

theorem Allowed.keeps : Allowed agent P T s activity (.ok .keeps) := trivial

theorem Allowed.bind {α : Type} {m : Except Failure α} {f : α → Outcome}
    (hm : m ≠ .error .indexOutOfBounds) (hf : ∀ a, m = .ok a → Allowed agent P T s activity (f a)) :
    Allowed agent P T s activity (m >>= f) := by
  cases m with
  | error failure => exact fun hpanic => hm (congrArg _ hpanic)
  | ok a => exact hf a rfl

theorem Allowed.ensure {c : Prop} [Decidable c] {error : CliError}
    (hf : c → Allowed agent P T s activity (f ())) :
    Allowed agent P T s activity (ensure c (.error error) >>= f) := by
  refine .bind (fun hpanic => ?_) fun _ hc => hf (ensure_eq_ok.mp hc)
  cases ensure_eq_error hpanic

theorem Allowed.liftError {m : Except CliError Unit} (hf : Allowed agent P T s activity (f ())) :
    Allowed agent P T s activity (AutoResume.liftError m >>= f) := by
  refine .bind (fun hpanic => ?_) fun _ _ => hf
  cases m <;> cases hpanic

theorem Allowed.epochString {epoch : Int} {f : Int → Outcome}
    (hf : timestampRange epoch = true → Allowed agent P T s activity (f epoch)) :
    Allowed agent P T s activity (AutoResume.epochString epoch >>= f) := by
  unfold AutoResume.epochString
  split
  · rename_i hrange
    exact hf hrange
  · exact fun hpanic => by cases hpanic

theorem Allowed.delayAt {delays : List Int} {index : Nat} {f : Int → Outcome}
    (hindex : index < delays.length)
    (hf : ∀ delay ∈ delays, Allowed agent P T s activity (f delay)) :
    Allowed agent P T s activity (AutoResume.delayAt delays index >>= f) := by
  unfold AutoResume.delayAt
  rw [List.getElem?_eq_getElem hindex]
  exact hf _ (getElem_mem hindex)

/-! ## Times -/

/-- A delay after a time that can be written. -/
theorem lt_i64Add {delay : Int} (hrange : timestampRange now = true) (hdelay : 0 < delay)
    (hbound : delay ≤ 3600) : now < i64Add now delay := by
  unfold timestampRange at hrange
  unfold i64Add i64Clamp i64Min i64Max
  simp only [Bool.and_eq_true, decide_eq_true_eq] at hrange
  omega

theorem retryDelays_range : ∀ delay ∈ retryDelaysSeconds, 0 < delay ∧ delay ≤ 3600 := by
  decide

theorem probeDelays_range :
    ∀ delay ∈ unknownResetProbeDelaysSeconds, 0 < delay ∧ delay ≤ 3600 := by decide

theorem Later.refl : Later now s s := ⟨fun _ h => .inl h, fun _ h => .inl h⟩

theorem Later.of_eq (hscheduled : s'.scheduledAt = none ∨ s'.scheduledAt = s.scheduledAt)
    (hnext : s'.nextCheckAt = none ∨ s'.nextCheckAt = s.nextCheckAt) : Later now s s' := by
  constructor
  · intro at_ hat
    rcases hscheduled with hnone | hsame
    · rw [hnone] at hat
      cases hat
    · exact .inl (hsame ▸ hat)
  · intro at_ hat
    rcases hnext with hnone | hsame
    · rw [hnone] at hat
      cases hat
    · exact .inl (hsame ▸ hat)

theorem Later.of_ready {s₀ : DurableAutoResume} (hready : Ready agent s s₀) (h : Later now s₀ s') :
    Later now s s' := by
  cases hready with
  | claim => exact h
  | legacy _ _ _ _ _ _ _ hscheduled hnext =>
    exact ⟨hscheduled ▸ h.scheduledAt, hnext ▸ h.nextCheckAt⟩

theorem Ready.enabled {s₀ : DurableAutoResume} (h : Ready agent s s₀) : s₀.enabled = true := by
  cases h with
  | claim henabled => exact henabled
  | legacy _ _ _ henabled => exact henabled

/-! ## Retries -/

theorem notLegacy_of_reason (hreason : agent = .claude →
    s.failureReason ≠ some "usage_window_not_exhausted") : NotLegacy agent s := by
  rintro ⟨hagent, hlegacy⟩
  simp only [legacyUsageWindowTerminal, Bool.and_eq_true, decide_eq_true_eq] at hlegacy
  exact hreason hagent hlegacy.1.1.2

theorem u32Succ_eq {n : Nat} (h : u32Succ n < maxTransientAttempts) : u32Succ n = n + 1 := by
  unfold u32Succ maxTransientAttempts at *
  split at h
  · rename_i hroom
    rw [if_pos hroom]
  · omega

theorem allowed_recordRetry {s₀ : DurableAutoResume} (hready : Ready agent s s₀)
    (hcause : s₀.recoveryCause ≠ some .providerCapacity) (hrange : timestampRange now = true)
    (hreason : agent = .claude → reason ≠ "usage_window_not_exhausted") :
    Allowed agent P (Later now) s activity (recordRetry s₀ now reason) := by
  have hlegacy : agent = .claude → some reason ≠ some "usage_window_not_exhausted" :=
    fun hagent heq => hreason hagent (Option.some.inj heq)
  unfold recordRetry
  dsimp only
  split
  · exact ⟨.checksExhausted hready hcause ⟨rfl, rfl, rfl⟩ rfl (u32Succ_le _) rfl
      (notLegacy_of_reason hlegacy), .of_ready hready (.of_eq (.inl rfl) (.inl rfl))⟩
  · rename_i hbound
    have hattempt := u32Succ_eq (not_le.mp hbound)
    refine .delayAt ?_ fun delay hdelay => .epochString fun _ => ⟨?_, .of_ready hready ⟨?_, ?_⟩⟩
    · simp only [maxTransientAttempts, not_le] at hbound
      simp only [retryDelaysSeconds, length_cons, length_nil]
      omega
    · exact .checkFailed hready hcause ⟨rfl, rfl, rfl⟩ hready.enabled rfl hattempt
        (not_le.mp hbound) rfl
    · intro at_ hat
      cases hat
    · intro at_ hat
      cases hat
      obtain ⟨hpositive, hshort⟩ := retryDelays_range delay hdelay
      exact .inr (lt_i64Add hrange hpositive hshort)

theorem allowed_recordCapacitySchedulerRetry
    (hready : s.enabled = true ∧ s.state.claimable = true) (hrange : timestampRange now = true)
    (hreason : agent = .claude → reason ≠ "usage_window_not_exhausted") :
    Allowed agent P (Later now) s activity (recordCapacitySchedulerRetry s now reason) := by
  have hlegacy : agent = .claude → some reason ≠ some "usage_window_not_exhausted" :=
    fun hagent heq => hreason hagent (Option.some.inj heq)
  unfold recordCapacitySchedulerRetry
  dsimp only
  split
  · exact ⟨.ended (.inr rfl) ⟨rfl, rfl, rfl⟩ rfl rfl (notLegacy_of_reason hlegacy),
      .of_eq (.inl rfl) (.inl rfl)⟩
  · rename_i hbound
    refine .delayAt ?_ fun delay hdelay => .epochString fun _ => ⟨?_, ⟨?_, ?_⟩⟩
    · simp only [maxTransientAttempts, not_le] at hbound
      simp only [retryDelaysSeconds, length_cons, length_nil]
      omega
    · exact .postponed hready ⟨rfl, rfl, rfl⟩ hready.1 rfl rfl rfl
    · intro at_ hat
      cases hat
    · intro at_ hat
      cases hat
      obtain ⟨hpositive, hshort⟩ := retryDelays_range delay hdelay
      exact .inr (lt_i64Add hrange hpositive hshort)

/-! ## Ends -/

theorem allowed_failTerminally {s₀ : DurableAutoResume} (hsame : Same s s₀)
    (haccounts : s₀.attemptedAccounts = s.attemptedAccounts)
    (hreason : reason ≠ "usage_window_not_exhausted") (hlater : Later now s s₀) :
    Allowed agent P (Later now) s activity (.ok (failTerminally s₀ now reason)) :=
  ⟨.ended (.inr rfl) ⟨hsame.cause, hsame.turn, hsame.revision⟩ rfl haccounts
    (notLegacy_of_reason fun _ heq => hreason (Option.some.inj heq)),
    ⟨hlater.scheduledAt, hlater.nextCheckAt⟩⟩

theorem allowed_failUnscheduled (hreason : reason ≠ "usage_window_not_exhausted") :
    Allowed agent P (Later now) s activity
      (.ok (failTerminally { s with scheduledAt := none, nextCheckAt := none } now reason)) := by
  refine allowed_failTerminally ?_ ?_ hreason ?_
  · exact ⟨rfl, rfl, rfl⟩
  · rfl
  · exact .of_eq (.inl rfl) (.inl rfl)

theorem allowed_cancelWith (reason : Option String) :
    Allowed agent P (Later now) s activity (.ok (cancelWith s now reason)) := by
  refine ⟨.ended (.inl rfl) ⟨rfl, rfl, rfl⟩ rfl rfl ?_, .of_eq (.inl rfl) (.inl rfl)⟩
  rintro ⟨-, hlegacy⟩
  simp [legacyUsageWindowTerminal] at hlegacy

theorem Ready.same {s₀ : DurableAutoResume} (h : Ready agent s s₀) : Same s s₀ := by
  cases h with
  | claim => exact ⟨rfl, rfl, rfl⟩
  | legacy _ _ hsame => exact hsame

theorem Ready.accounts {s₀ : DurableAutoResume} (h : Ready agent s s₀) :
    s₀.attemptedAccounts = s.attemptedAccounts := by
  cases h with
  | claim => rfl
  | legacy _ _ _ _ _ _ haccounts => exact haccounts

theorem Ready.allowed_failTerminally {s₀ : DurableAutoResume} (h : Ready agent s s₀)
    (hreason : reason ≠ "usage_window_not_exhausted") :
    Allowed agent P (Later now) s activity (.ok (failTerminally s₀ now reason)) :=
  AutoResume.allowed_failTerminally h.same h.accounts hreason (.of_ready h .refl)

/-! ## Entry points -/

section
variable {facts : Facts} {file : Option DurableAutoResume}

theorem allowed_setEnabled (enabled : Bool) (policy : RecoveryPolicy) :
    Allowed agent P (Later now) (readState file now) activity
      (setEnabled agent facts file enabled policy now) := by
  unfold setEnabled
  refine .ensure fun _ => .ensure fun _ => .ensure fun _ => ?_
  split
  · split
    · exact fun hpanic => by cases hpanic
    · trivial
  · cases enabled with
    | true => exact ⟨.enabled policy now rfl, .of_eq (.inl rfl) (.inl rfl)⟩
    | false => exact ⟨.disabled policy now rfl, .of_eq (.inl rfl) (.inl rfl)⟩

theorem allowed_applyServeDefault (policy : RecoveryPolicy) :
    Allowed agent P (Later now) (readState file now) activity
      (applyServeDefault agent facts file policy now) := by
  have henabled := @allowed_setEnabled agent P activity now facts file true policy
  unfold applyServeDefault
  split
  · trivial
  · split
    · rename_i move hmove
      rw [hmove] at henabled
      exact henabled
    · split
      · trivial
      · exact fun hpanic => by cases hpanic
    · rename_i hpanic
      rw [hpanic] at henabled
      exact henabled

theorem inputBinding_ne_panic : inputBinding facts ≠ .error .indexOutOfBounds := by
  unfold inputBinding
  split <;> simp

theorem allowed_rearmUsageExhaustion (expectedLaunchId turn : String) (revision : Nat) :
    Allowed agent P (Later now) (readState file now) activity
      (rearmUsageExhaustion agent facts file expectedLaunchId turn revision now) := by
  unfold rearmUsageExhaustion
  refine .ensure fun _ => .ensure fun _ => .ensure fun _ => .ensure fun _ =>
    .bind inputBinding_ne_panic fun account _ => ?_
  exact ⟨.rearmed rfl rfl rfl rfl rfl rfl rfl, .of_eq (.inl rfl) (.inl rfl)⟩

theorem allowed_cancel : Allowed agent P (Later now) (readState file now) activity
    (cancel file now) := by
  unfold cancel
  dsimp only
  split
  · trivial
  · exact .ensure fun _ => allowed_cancelWith none

theorem allowed_cancelActive (reason : String) :
    Allowed agent P (Later now) (readState file now) activity (.ok (cancelActive file now reason)) := by
  unfold cancelActive
  dsimp only
  split
  · exact allowed_cancelWith _
  · trivial

theorem allowed_cancelForManualInput : Allowed agent P (Later now) (readState file now) activity
    (.ok (cancelForManualInput facts file activity now)) := by
  unfold cancelForManualInput
  dsimp only
  split
  · rename_i hresumed
    exact ⟨.reset now hresumed rfl, .of_eq (.inl rfl) (.inl rfl)⟩
  · split
    · exact allowed_cancelWith _
    · exact allowed_cancelActive _

theorem allowed_cancelForAccountSwitch : Allowed agent P (Later now) (readState file now) activity
    (.ok (cancelForAccountSwitch facts file activity now)) := by
  unfold cancelForAccountSwitch
  dsimp only
  split
  · rename_i hresumed
    exact ⟨.reset now ⟨hresumed.1, hresumed.2.1⟩ rfl, .of_eq (.inl rfl) (.inl rfl)⟩
  · split
    · exact allowed_cancelWith _
    · exact allowed_cancelActive _

theorem allowed_failClosedProjection (expectedLaunchId : String) :
    Allowed agent P (Later now) (readState file now) activity
      (.ok (failClosedProjection facts file expectedLaunchId now)) := by
  unfold failClosedProjection
  dsimp only
  split
  · exact allowed_failUnscheduled (by decide)
  · trivial

theorem allowed_armUsageExhaustion (turn : String) (revision : Nat) :
    Allowed agent P (Later now) (readState file now) activity
      (armUsageExhaustion agent facts file turn revision now) := by
  unfold armUsageExhaustion
  dsimp only
  split
  · trivial
  · rename_i hadmitted
    simp only [not_or, Bool.not_eq_true', Bool.not_eq_false] at hadmitted
    obtain ⟨-, henabled, hidle, hnew⟩ := hadmitted
    refine .bind inputBinding_ne_panic fun account _ => ⟨?_, ?_⟩
    · refine .armedUsage henabled hidle ?_ ?_ ?_ ?_ ?_ ?_ ?_ ?_
      · rintro ⟨hturn, hstate | hstate⟩
        · exact hnew ⟨hturn, by simp [hstate]⟩
        · exact hnew ⟨hturn, by simp [hstate]⟩
      · split <;> exact henabled
      · split <;> rfl
      · split <;> rfl
      · split <;> rfl
      · split <;> rfl
      · intro hpreserved
        rw [if_pos hpreserved]
        simp only [decide_eq_true_eq] at hpreserved
        exact ⟨hpreserved.1, rfl, rfl⟩
      · intro hcleared
        rw [if_neg (by rw [hcleared]; simp)]
        exact ⟨rfl, rfl⟩
    · refine .of_eq ?_ ?_
      · split <;> exact .inl rfl
      · split <;> exact .inl rfl

theorem allowed_completeProviderCapacityRecovery (completedRevision : Nat) :
    Allowed agent P (Later now) (readState file now) activity
      (.ok (completeProviderCapacityRecovery file completedRevision now)) := by
  unfold completeProviderCapacityRecovery
  dsimp only
  split
  · rename_i hresumed
    exact ⟨.reset now ⟨hresumed.1, hresumed.2.1⟩ rfl, .of_eq (.inl rfl) (.inl rfl)⟩
  · trivial

theorem SchedulerReason.text_ne (reason : SchedulerReason) :
    reason.text ≠ "usage_window_not_exhausted" := by
  cases reason <;> decide

theorem allowed_recordSchedulerError (expectedLaunchId : Option String) (reason : SchedulerReason) :
    Allowed agent P (Later now) (readState file now) activity
      (recordSchedulerError facts file expectedLaunchId now reason) := by
  unfold recordSchedulerError
  refine .epochString fun hrange => ?_
  dsimp only
  split
  · trivial
  split
  · exact allowed_failTerminally ⟨rfl, rfl, rfl⟩ rfl (by decide) .refl
  split
  · trivial
  · rename_i hclaim
    simp only [not_or, Bool.not_eq_true', Bool.not_eq_false] at hclaim
    split
    · exact allowed_recordCapacitySchedulerRetry hclaim hrange fun _ => reason.text_ne
    · rename_i hcause
      exact allowed_recordRetry (.claim hclaim.1 hclaim.2) hcause hrange fun _ => reason.text_ne

theorem allowed_wakeScheduledIfUsageOpen (expectedLaunchId : Option String) :
    Allowed agent P (fun _ _ => True) (readState file now) activity
      (wakeScheduledIfUsageOpen facts file expectedLaunchId now) := by
  unfold wakeScheduledIfUsageOpen
  refine .epochString fun _ => ?_
  dsimp only
  split
  · rename_i hscheduled
    exact ⟨.woken ⟨hscheduled.2.1, hscheduled.2.2.1⟩ ⟨rfl, rfl, rfl⟩ hscheduled.2.1
      hscheduled.2.2.1 rfl rfl, trivial⟩
  · trivial

theorem recordCapacityBinding_eq (state : DurableAutoResume) :
    Same state (recordCapacityBinding facts state) ∧
      (recordCapacityBinding facts state).enabled = state.enabled ∧
      (recordCapacityBinding facts state).state = state.state ∧
      (recordCapacityBinding facts state).attempt = state.attempt ∧
      (recordCapacityBinding facts state).scheduledAt = state.scheduledAt ∧
      (recordCapacityBinding facts state).nextCheckAt = state.nextCheckAt := by
  unfold recordCapacityBinding
  split <;> exact ⟨⟨rfl, rfl, rfl⟩, rfl, rfl, rfl, rfl, rfl⟩

theorem allowed_scheduleCapacity (hknown : P s turn) (hagent : agent ≠ .claude) (revision : Nat)
    {preserved : Bool} (henabled : s.enabled = true)
    (hidle : ¬(s.recoveryCause = some .providerCapacity ∧ s.state = .checking))
    (hnew : ¬(s.blockedTurnId = some turn ∧ s.recoveryCause = some .providerCapacity ∧
      (s.state = .scheduled ∨ s.state = .resumed)))
    (hpreserved : preserved = true ↔ s.recoveryCause = some .providerCapacity ∧ s.state = .resumed)
    (hbound : preserved = true → s.attempt < maxTransientAttempts) :
    Allowed agent P (Later now) s activity
      (scheduleCapacity facts s turn revision now preserved) := by
  obtain ⟨base, hbase⟩ : ∃ base : DurableAutoResume, base =
      (if preserved then s else { s with attempt := 0, fallbackSchedules := 0 }) := ⟨_, rfl⟩
  have hattempt : base.attempt = if preserved then s.attempt else 0 := by
    rw [hbase]
    split <;> rfl
  have hstill : base.enabled = true := by
    rw [hbase]
    split <;> exact henabled
  unfold scheduleCapacity
  rw [← hbase]
  refine .epochString fun hrange => .delayAt ?_ fun delay hdelay => .epochString fun _ => ?_
  · rw [hattempt]
    simp only [retryDelaysSeconds, length_cons, length_nil]
    split
    · rename_i hkept
      exact hbound hkept
    · omega
  · generalize hclaim : recordCapacityBinding facts { base with
      state := .scheduled
      updatedAt := now
      scheduledAt := some (i64Add now delay)
      nextCheckAt := none
      failureReason := none
      recoveryCause := some .providerCapacity
      blockedTurnId := some turn
      blockedRevision := some revision } = claim
    obtain ⟨hsame, hfields⟩ := @recordCapacityBinding_eq facts { base with
      state := .scheduled
      updatedAt := now
      scheduledAt := some (i64Add now delay)
      nextCheckAt := none
      failureReason := none
      recoveryCause := some .providerCapacity
      blockedTurnId := some turn
      blockedRevision := some revision }
    rw [hclaim] at hsame hfields
    obtain ⟨hclaimed, hstate, hcount, hscheduled, hnext⟩ := hfields
    refine ⟨.armedCapacity hknown hagent henabled hidle hnew (hclaimed.trans hstill) hstate hsame.cause
      hsame.turn hsame.revision hpreserved (hcount.trans hattempt) rfl, ?_, ?_⟩
    · intro at_ hat
      have hat : claim.scheduledAt = some at_ := hat
      rw [hscheduled] at hat
      cases hat
      obtain ⟨hpositive, hshort⟩ := retryDelays_range delay hdelay
      exact .inr (lt_i64Add hrange hpositive hshort)
    · intro at_ hat
      have hat : claim.nextCheckAt = some at_ := hat
      rw [hnext] at hat
      cases hat

theorem allowed_armProviderCapacity (expectedLaunchId : String)
    (expectedBinding : BindingSnapshot) (hknown : P (readState file now) turn) (revision : Nat) :
    Allowed agent P (Later now) (readState file now) activity
      (armProviderCapacity agent facts file expectedLaunchId expectedBinding activity turn revision
        now) := by
  unfold armProviderCapacity
  dsimp only
  split
  · trivial
  · rename_i hadmitted
    simp only [not_or, ne_eq, not_not, Bool.not_eq_true', Bool.not_eq_false] at hadmitted
    obtain ⟨hcodex, -, -, -, henabled, hidle, -, hnew⟩ := hadmitted
    have hagent : agent ≠ .claude := by
      rw [hcodex]
      decide
    split
    · exact allowed_failUnscheduled (by decide)
    · rename_i hspent
      refine allowed_scheduleCapacity hknown hagent revision henabled hidle ?_ decide_eq_true_iff ?_
      · rintro ⟨hturn, hcause, hstate | hstate⟩
        · exact hnew ⟨hturn, hcause, by simp [hstate]⟩
        · exact hnew ⟨hturn, hcause, by simp [hstate]⟩
      · intro hkept
        exact not_le.mp fun hover => hspent ⟨hkept, hover⟩

/-! ## The tick -/

section
variable {digestByte : String → Nat} {tick : Tick} {s₀ : DurableAutoResume}

theorem jitter_nonneg : 0 ≤ jitter digestByte s₀ := by
  unfold jitter boundedJitterSeconds
  exact Int.natCast_nonneg _

theorem allowed_scheduleReset (hready : Ready agent s s₀)
    (hcause : s₀.recoveryCause ≠ some .providerCapacity) (hrange : timestampRange tick.now = true) :
    Allowed agent P (Later tick.now) s activity (scheduleReset digestByte tick s₀) := by
  unfold scheduleReset
  split
  · exact allowed_recordRetry hready hcause hrange fun _ => by decide
  · rename_i latestReset _
    refine .epochString fun _ => ⟨.scheduled hready hcause ⟨rfl, rfl, rfl⟩ hready.enabled rfl
      (Nat.le_refl _) rfl, .of_ready hready ⟨?_, ?_⟩⟩
    · intro at_ hat
      cases hat
      have hnext := lt_i64Add hrange (by decide : (0 : Int) < 1) (by decide)
      have hjitter := @jitter_nonneg digestByte s₀
      right
      omega
    · intro at_ hat
      cases hat

theorem fallbackReset_cases (hrange : timestampRange tick.now = true) :
    (∃ reset, fallbackReset agent tick s₀ = .ok (some reset) ∧ tick.now < reset) ∨
      (fallbackReset agent tick s₀ = .ok none ∧ agent ≠ .claude) := by
  unfold fallbackReset
  cases hsoonest : tick.usage.soonestResetEpoch.filter (tick.now < ·) with
  | some reset =>
    obtain ⟨-, hlater⟩ := Option.filter_eq_some_iff.mp hsoonest
    exact .inl ⟨reset, rfl, of_decide_eq_true hlater⟩
  | none =>
    dsimp only
    split
    · left
      have hindex : min s₀.fallbackSchedules (unknownResetProbeDelaysSeconds.length - 1) <
          unknownResetProbeDelaysSeconds.length := by
        simp only [unknownResetProbeDelaysSeconds, length_cons, length_nil]
        omega
      unfold unknownResetProbeDelaySeconds AutoResume.delayAt
      rw [List.getElem?_eq_getElem hindex]
      obtain ⟨hpositive, hshort⟩ := probeDelays_range _ (getElem_mem hindex)
      exact ⟨_, rfl, lt_i64Add hrange hpositive hshort⟩
    · rename_i hagent
      exact .inr ⟨rfl, hagent⟩

section

variable (hready : Ready agent s s₀)

include hready

theorem allowed_scheduleFallback
    (hcause : s₀.recoveryCause ≠ some .providerCapacity) (hrange : timestampRange tick.now = true) :
    Allowed agent P (Later tick.now) s activity (scheduleFallback agent digestByte tick s₀) := by
  unfold scheduleFallback
  rcases @fallbackReset_cases agent tick s₀ hrange with ⟨reset, hreset, hlater⟩ | ⟨hreset, hagent⟩
  · rw [hreset]
    refine .epochString fun _ => ⟨.scheduled hready hcause ⟨rfl, rfl, rfl⟩ hready.enabled rfl
      (Nat.zero_le _) rfl, .of_ready hready ⟨?_, ?_⟩⟩
    · intro at_ hat
      cases hat
      have hjitter := @jitter_nonneg digestByte s₀
      right
      omega
    · intro at_ hat
      cases hat
  · rw [hreset]
    exact allowed_recordRetry hready hcause hrange fun hclaude => absurd hclaude hagent

theorem allowed_switchAccount
    (hcause : s₀.recoveryCause ≠ some .providerCapacity) {account : String}
    (htarget : failoverTarget agent facts tick s₀ = some account) :
    Allowed agent P (Later tick.now) s activity (.ok (switchAccount facts tick s₀ account)) := by
  have hnew : account ∉ s₀.attemptedAccounts := by
    unfold failoverTarget at htarget
    split at htarget
    · obtain ⟨-, hfresh⟩ := Option.filter_eq_some_iff.mp htarget
      simp only [Bool.and_eq_true, Bool.not_eq_true', contains_eq_mem,
        decide_eq_false_iff_not] at hfresh
      exact hfresh.2
    · cases htarget
  refine ⟨.accountQueued hready hcause ⟨rfl, rfl, rfl⟩ hready.enabled rfl rfl hnew ?_,
    .of_eq (.inl rfl) (.inl rfl)⟩
  rintro other (rfl | hother)
  · simp
  · simp [hother]

theorem allowed_usageMove
    (hcause : s₀.recoveryCause ≠ some .providerCapacity) (hrange : timestampRange tick.now = true)
    (h : usageMove agent digestByte facts tick s₀ = some outcome) :
    Allowed agent P (Later tick.now) s activity outcome := by
  unfold usageMove at h
  split at h
  · cases h
    exact allowed_recordRetry hready hcause hrange fun _ => by decide
  split at h
  · cases h
    exact allowed_recordRetry hready hcause hrange fun _ => by decide
  split at h
  · cases h
    trivial
  split at h
  · cases h
    exact hready.allowed_failTerminally (by decide)
  split at h
  · rename_i account htarget
    cases h
    exact allowed_switchAccount hready hcause htarget
  split at h
  · cases h
    exact allowed_scheduleReset hready hcause hrange
  split at h
  · cases h
    exact allowed_recordRetry hready hcause hrange fun _ => by decide
  split at h
  · cases h
    exact allowed_scheduleFallback hready hcause hrange
  · cases h

theorem allowed_capacityMove
    (h : capacityMove facts tick s₀ = some outcome) :
    Allowed agent P (Later tick.now) s activity outcome := by
  unfold capacityMove at h
  split at h
  · cases h
    exact hready.allowed_failTerminally (by decide)
  split at h
  · cases h
    exact hready.allowed_failTerminally (by decide)
  · cases h

theorem allowed_claim
    (hbudget : s₀.recoveryCause = some .providerCapacity → s₀.attempt < maxTransientAttempts) :
    Allowed agent P (Later tick.now) s activity (claim agent facts tick s₀ activity) := by
  unfold claim
  split
  · exact hready.allowed_failTerminally (by decide)
  rename_i heligible
  have heligible : blockedClaimIsEligible (some activity) s₀ = true := by
    unfold stateForView at heligible
    split at heligible
    · simpa using heligible
    · simp [blockedClaimIsEligible] at heligible
  refine .liftError ?_
  split
  · exact hready.allowed_failTerminally (by decide)
  have hclaimed : Allowed agent P (Later tick.now) s activity (.ok (.claims { s₀ with
      attempt := if s₀.recoveryCause = some .providerCapacity then u32Succ s₀.attempt
        else s₀.attempt
      state := .checking
      updatedAt := tick.now
      scheduledAt := none
      nextCheckAt := none })) := by
    refine ⟨⟨⟨s₀, hready, ⟨rfl, rfl, rfl⟩, rfl, fun hcapacity => ?_, fun hcapacity => ?_⟩,
      hready.enabled, rfl, heligible⟩, .of_eq (.inl rfl) (.inl rfl)⟩
    · have hbound := hbudget hcapacity
      refine ⟨hbound, ?_⟩
      simp only [if_pos hcapacity]
      unfold u32Succ
      unfold maxTransientAttempts at hbound
      exact if_pos (by omega)
    · exact if_neg hcapacity
  dsimp only
  split
  · exact .liftError hclaimed
  · exact hclaimed

theorem allowed_advance (hrange : timestampRange tick.now = true) :
    Allowed agent P (Later tick.now) s activity
      (advance agent digestByte facts tick s₀ activity) := by
  unfold advance
  dsimp only
  by_cases hcapacity : s₀.recoveryCause = some .providerCapacity
  · rw [if_pos hcapacity]
    split
    · rename_i outcome houtcome
      exact allowed_capacityMove hready houtcome
    · rename_i hnone
      refine allowed_claim hready fun _ => not_le.mp fun hspent => ?_
      unfold capacityMove at hnone
      rw [if_pos hspent] at hnone
      cases hnone
  · rw [if_neg hcapacity]
    split
    · rename_i outcome houtcome
      exact allowed_usageMove hready hcapacity hrange houtcome
    · exact allowed_claim hready fun hcause => absurd hcause hcapacity

end

theorem allowed_tickInner {fenced : Bool} :
    Allowed agent P (Later tick.now) (readState file tick.now) activity
      (tickInner agent digestByte facts tick file fenced activity) := by
  unfold tickInner
  refine .epochString fun hrange => ?_
  dsimp only
  generalize readState file tick.now = s
  split
  · trivial
  split
  · exact allowed_failTerminally ⟨rfl, rfl, rfl⟩ rfl (by decide) .refl
  split
  · rename_i hchecking
    unfold recoverSubmission
    split
    · exact ⟨.resumed hchecking ⟨rfl, rfl, rfl⟩ rfl rfl rfl rfl, .of_eq (.inr rfl) (.inr rfl)⟩
    · exact allowed_failTerminally ⟨rfl, rfl, rfl⟩ rfl (by decide) .refl
  split
  · rename_i hlegacy
    unfold recoverLegacy
    split
    · refine ⟨.ended (.inr rfl) ⟨rfl, rfl, rfl⟩ ?_ rfl ?_, .of_eq (.inr rfl) (.inr rfl)⟩
      · have hterminal := hlegacy.2
        simp only [legacyUsageWindowTerminal, Bool.and_eq_true, Bool.not_eq_true'] at hterminal
        exact hterminal.1.1.1.1
      · exact notLegacy_of_reason fun _ heq => absurd (Option.some.inj heq) (by decide)
    · unfold advanceDue
      split
      · exact allowed_advance (.legacy hlegacy.1 hlegacy.2 ⟨rfl, rfl, rfl⟩ rfl rfl rfl rfl rfl rfl)
          hrange
      · trivial
  · unfold advanceDue
    split
    · rename_i hclaim
      exact allowed_advance (.claim hclaim.1 hclaim.2.1) hrange
    · trivial

theorem allowed_publish {claim : DurableAutoResume} (hclaim : claim.state = .checking)
    (accepted : Bool) : Allowed agent P (Later now) (readState file now) activity
      (.ok (publish file claim accepted now)) := by
  unfold publish
  split
  · trivial
  rename_i hsame
  rw [not_not.mp hsame]
  split
  · exact ⟨.resumed hclaim ⟨rfl, rfl, rfl⟩ rfl rfl rfl rfl, .of_eq (.inr rfl) (.inr rfl)⟩
  · exact allowed_failTerminally ⟨rfl, rfl, rfl⟩ rfl (by decide) .refl

end

end

/-! ## Steps -/

/-- A step of the world, by what it does. -/
inductive Moved (agent : Provider) (P : DurableAutoResume → String → Prop)
    (world world' : World) : Prop
  | event {activity : TurnState} (hfree : world.locked = false)
      (h : world' = { world with activity }) : Moved agent P world world'
  | submitted {claim : DurableAutoResume} (hflight : world.flight = some ⟨claim, false⟩)
      (h : world' = { world with
        flight := some ⟨claim, true⟩
        log := .submitted (submissionOf claim world.activity) :: world.log }) :
      Moved agent P world world'
  | moved {outcome : Outcome} {T : DurableAutoResume → DurableAutoResume → Prop} {now : Int}
      (hfree : world.locked = false)
      (hallowed : Allowed agent P T (readState world.file now) world.activity outcome)
      (h : world' = world.after outcome ∨ world' = { world.after outcome with flight := none }) :
      Moved agent P world world'
  | abandoned (h : world' = { world with flight := none }) : Moved agent P world world'

variable {digestByte : String → Nat}

theorem allowed_moveOf {world : World} {label : Label}
    (hchecking : ∀ flight, world.flight = some flight → flight.claim.state = .checking)
    (hknown : ∀ facts launchId binding turn revision now,
      label = .armCapacity facts launchId binding turn revision now →
        P (readState world.file now) turn) :
    ∃ T now, Allowed agent P T (readState world.file now) world.activity
      (moveOf agent digestByte world label) := by
  have hkeeps : ∃ T now, Allowed agent P T (readState world.file now) world.activity (.ok .keeps) :=
    ⟨fun _ _ => True, 0, trivial⟩
  cases label with
  | event activity => exact hkeeps
  | submit => exact hkeeps
  | abandon => exact hkeeps
  | setEnabled facts enabled policy now => exact ⟨_, _, allowed_setEnabled enabled policy⟩
  | serveDefault facts policy now => exact ⟨_, _, allowed_applyServeDefault policy⟩
  | rearm facts launchId turn revision now =>
    exact ⟨_, _, allowed_rearmUsageExhaustion launchId turn revision⟩
  | cancel now => exact ⟨_, _, allowed_cancel⟩
  | manualInput facts now => exact ⟨_, _, allowed_cancelForManualInput⟩
  | accountSwitch facts now => exact ⟨_, _, allowed_cancelForAccountSwitch⟩
  | failClosed facts launchId now => exact ⟨_, _, allowed_failClosedProjection launchId⟩
  | armUsage facts turn revision now => exact ⟨_, _, allowed_armUsageExhaustion turn revision⟩
  | armCapacity facts launchId binding turn revision now =>
    exact ⟨_, _, allowed_armProviderCapacity launchId binding (hknown _ _ _ _ _ _ rfl) revision⟩
  | completeCapacity revision now =>
    exact ⟨_, _, allowed_completeProviderCapacityRecovery revision⟩
  | schedulerError facts launchId now reason =>
    exact ⟨_, _, allowed_recordSchedulerError launchId reason⟩
  | wake facts launchId now => exact ⟨_, _, allowed_wakeScheduledIfUsageOpen launchId⟩
  | tick facts tick => exact ⟨_, _, allowed_tickInner⟩
  | publish accepted now =>
    unfold moveOf
    dsimp only
    split
    · rename_i flight hflight
      exact ⟨_, _, allowed_publish (hchecking flight hflight) accepted⟩
    · exact hkeeps

theorem moved_of_next {world world' : World} {label : Label}
    (hchecking : ∀ flight, world.flight = some flight → flight.claim.state = .checking)
    (hknown : ∀ facts launchId binding turn revision now,
      label = .armCapacity facts launchId binding turn revision now →
        P (readState world.file now) turn)
    (h : world.next agent digestByte label = some world') : Moved agent P world world' := by
  obtain ⟨T, now, hallowed⟩ := @allowed_moveOf agent P digestByte world label hchecking hknown
  have hentry : (if world.locked then none else
      some (world.after (moveOf agent digestByte world label))) = some world' →
        Moved agent P world world' := by
    intro h
    split at h
    · cases h
    · rename_i hfree
      exact .moved (by simpa using hfree) hallowed (.inl (Option.some.inj h).symm)
  cases label with
  | event activity =>
    unfold World.next at h
    dsimp only at h
    split at h
    · rename_i hfree
      cases h
      exact .event (by simpa using hfree.1) rfl
    · cases h
  | submit =>
    unfold World.next at h
    dsimp only at h
    split at h
    · rename_i claim hflight
      cases h
      exact .submitted hflight rfl
    · cases h
  | publish accepted now =>
    unfold World.next at h
    dsimp only at h
    split at h
    · rename_i claim hflight
      exact .moved (by simp [World.locked, hflight]) hallowed (.inr (Option.some.inj h).symm)
    · cases h
  | abandon =>
    unfold World.next at h
    dsimp only at h
    split at h
    · cases h
      exact .abandoned rfl
    · cases h
  | setEnabled | serveDefault | rearm | cancel | manualInput | accountSwitch | failClosed
    | armUsage | armCapacity | completeCapacity | schedulerError | wake | tick => exact hentry h

end NilsCli.AutoResume
