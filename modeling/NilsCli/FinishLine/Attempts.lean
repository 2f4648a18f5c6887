import NilsCli.FinishLine.Moments
import NilsCli.FinishLine.StateSize

/-!
# The evidence of an open attempt

Each operation of the acceptance file has a sequence of its own, and evidence names the sequence of
its attempt.
-/

namespace NilsCli.FinishLine

open Lib

variable {session : AcceptanceSession} {requirement key' : String} {record : AcceptanceOperation}

structure AcceptanceState.Attempts (a : AcceptanceState) : Prop where
  sequence : ∀ key operation, a.operations.lookup key = some operation →
    operation.sequence ≤ a.nextSequence
  attempt : ∀ key session requirement evidence, a.sessions.lookup key = some session →
    session.evidence.lookup requirement = some evidence →
      evidence.attemptSequence ≤ a.nextSequence
  distinct : ∀ key key' operation operation', a.operations.lookup key = some operation →
    a.operations.lookup key' = some operation' → operation.sequence = operation'.sequence →
      key = key'
  active : ∀ key operation key' session requirement evidence,
    a.operations.lookup key = some operation → operation.terminal = none →
      a.sessions.lookup key' = some session →
      session.evidence.lookup requirement = some evidence →
      evidence.attemptSequence = operation.sequence → evidence.status = .active
  source : ∀ key operation source, a.operations.lookup key = some operation →
    operation.sourceOperationKey = some source → isDigest source = true

theorem attempts_new : AcceptanceState.new.Attempts where
  sequence _ _ h := by cases h
  attempt _ _ _ _ h := by cases h
  distinct _ _ _ _ h := by cases h
  active _ _ _ _ _ _ h := by cases h
  source _ _ _ h := by cases h

/-! ## Less -/

/-- No row is new; operations may have ended, and sessions may have lost their evidence. -/
structure AcceptanceState.Fades (a a₀ : AcceptanceState) : Prop where
  nextSequence : a₀.nextSequence ≤ a.nextSequence
  operations : ∀ key operation, a.operations.lookup key = some operation → ∃ old,
    a₀.operations.lookup key = some old ∧ operation.sequence = old.sequence ∧
      operation.sourceOperationKey = old.sourceOperationKey ∧
      (operation.terminal = none → old.terminal = none)
  sessions : ∀ key session, a.sessions.lookup key = some session → session.evidence = ∅ ∨ ∃ old,
    a₀.sessions.lookup key = some old ∧ session.evidence = old.evidence

section
variable {a a' a₀ : AcceptanceState} {key : String}

theorem AcceptanceState.Sub.fades (h : a.Sub a₀) : a.Fades a₀ where
  nextSequence := h.nextSequence
  operations key operation hlookup :=
    ⟨operation, h.operations key operation hlookup, rfl, rfl, fun hopen => hopen⟩
  sessions key session hlookup := by
    obtain ⟨old, hold, -, -, hevidence⟩ := h.sessions key session hlookup
    exact .inr ⟨old, hold, hevidence⟩

theorem AcceptanceState.Fades.trans (h : a.Fades a') (h' : a'.Fades a₀) : a.Fades a₀ where
  nextSequence := h'.nextSequence.trans h.nextSequence
  operations key operation hlookup := by
    obtain ⟨old, hold, hsequence, hsource, hopen⟩ := h.operations key operation hlookup
    obtain ⟨old', hold', hsequence', hsource', hopen'⟩ := h'.operations key old hold
    exact ⟨old', hold', hsequence.trans hsequence', hsource.trans hsource', hopen' ∘ hopen⟩
  sessions key session hlookup := by
    rcases h.sessions key session hlookup with hnone | ⟨old, hold, hevidence⟩
    · exact .inl hnone
    · rcases h'.sessions key old hold with hnone | ⟨old', hold', hevidence'⟩
      · exact .inl (hevidence.trans hnone)
      · exact .inr ⟨old', hold', hevidence.trans hevidence'⟩

/-- Evidence that is found was there before. -/
theorem AcceptanceState.Fades.evidence (h : a.Fades a₀) {evidence : RequirementEvidence}
    (hsession : a.sessions.lookup key = some session)
    (hevidence : session.evidence.lookup requirement = some evidence) : ∃ old,
      a₀.sessions.lookup key = some old ∧ old.evidence.lookup requirement = some evidence := by
  rcases h.sessions key session hsession with hnone | ⟨old, hold, hsame⟩
  · rw [hnone] at hevidence
    cases hevidence
  · exact ⟨old, hold, hsame ▸ hevidence⟩

theorem AcceptanceState.Attempts.fades (h : a₀.Attempts) (hfades : a.Fades a₀) : a.Attempts where
  sequence key operation hlookup := by
    obtain ⟨old, hold, hsequence, -, -⟩ := hfades.operations key operation hlookup
    exact hsequence ▸ (h.sequence key old hold).trans hfades.nextSequence
  attempt key session requirement evidence hsession hevidence := by
    obtain ⟨old, hold, hlookup⟩ := hfades.evidence hsession hevidence
    exact (h.attempt key old requirement evidence hold hlookup).trans hfades.nextSequence
  distinct key key' operation operation' hlookup hlookup' hsame := by
    obtain ⟨old, hold, hsequence, -, -⟩ := hfades.operations key operation hlookup
    obtain ⟨old', hold', hsequence', -, -⟩ := hfades.operations key' operation' hlookup'
    exact h.distinct key key' old old' hold hold' (hsequence ▸ hsequence' ▸ hsame)
  active key operation key' session requirement evidence hlookup hopen hsession hevidence hsame := by
    obtain ⟨old, hold, hsequence, -, hopen'⟩ := hfades.operations key operation hlookup
    obtain ⟨oldSession, holdSession, hlookup'⟩ := hfades.evidence hsession hevidence
    exact h.active key old key' oldSession requirement evidence hold (hopen' hopen) holdSession
      hlookup' (hsame.trans hsequence)
  source key operation source hlookup hsource := by
    obtain ⟨old, hold, -, hsame, -⟩ := hfades.operations key operation hlookup
    exact h.source key old source hold (hsame ▸ hsource)

theorem AcceptanceState.Attempts.sub (h : a₀.Attempts) (hsub : a.Sub a₀) : a.Attempts :=
  h.fades hsub.fades

def AcceptanceOperation.Ended (old operation : AcceptanceOperation) : Prop :=
  operation = old ∨ old.terminal = none ∧ ∃ terminal : AcceptanceTerminal,
    utf8Size (jsonString terminal.sourceDigest) ≤ 73 ∧
      operation = { old with terminal := some terminal }

theorem AcceptanceState.fades_ended {f : AcceptanceOperation → AcceptanceOperation}
    (hended : ∀ operation : AcceptanceOperation, operation.Ended (f operation))
    (hnext : a.nextSequence = a₀.nextSequence)
    (hoperations : a.operations = a₀.operations.mapVal fun _ operation => f operation)
    (hsessions : ∀ key session, a.sessions.lookup key = some session → session.evidence = ∅ ∨
      ∃ old, a₀.sessions.lookup key = some old ∧ session.evidence = old.evidence) :
    a.Fades a₀ where
  nextSequence := hnext.ge
  operations key operation hlookup := by
    rw [hoperations, Table.lookup_mapVal, Option.map_eq_some_iff] at hlookup
    obtain ⟨old, hold, rfl⟩ := hlookup
    refine ⟨old, hold, ?_⟩
    rcases hended old with hsame | ⟨-, terminal, -, hterminal⟩
    · rw [hsame]
      exact ⟨rfl, rfl, fun hopen => hopen⟩
    · rw [hterminal]
      exact ⟨rfl, rfl, nofun⟩
  sessions := hsessions

theorem AcceptanceOperation.ended_ite {p : Prop} [Decidable p] {operation : AcceptanceOperation}
    {terminal : AcceptanceTerminal} (hopen : p → operation.terminal = none)
    (hterminal : utf8Size (jsonString terminal.sourceDigest) ≤ 73) :
    operation.Ended (if p then { operation with terminal := some terminal } else operation) := by
  split
  · exact .inr ⟨hopen ‹_›, terminal, hterminal, rfl⟩
  · exact .inl rfl

theorem terminalizeInactive_ended (main : State) (operation : AcceptanceOperation) :
    operation.Ended (if orphanedCompletion main operation then
      { operation with terminal := some ⟨.infrastructureBlocked, "session-orphaned", .applied⟩ }
      else operation) := by
  refine AcceptanceOperation.ended_ite (fun hp => ?_) (by decide)
  simp only [orphanedCompletion, Bool.and_eq_true, Option.isNone_iff_eq_none] at hp
  exact hp.1.2

theorem releaseCompletions_ended (key capabilityDigest : String) (operation : AcceptanceOperation) :
    operation.Ended (if operation.sessionKey = key && operation.kind = .completion &&
        operation.terminal.isNone && operation.capabilityDigest = capabilityDigest then
      { operation with terminal := some ⟨.infrastructureBlocked, "session-release", .applied⟩ }
      else operation) := by
  refine AcceptanceOperation.ended_ite (fun hp => ?_) (by decide)
  simp only [Bool.and_eq_true, Option.isNone_iff_eq_none] at hp
  exact hp.1.2

theorem invalidate_ended (key : String) (operation : AcceptanceOperation) :
    operation.Ended (if operation.sessionKey = key && operation.terminal.isNone then
      { operation with
        terminal := some ⟨.infrastructureBlocked, "client-crash-recovery", .applied⟩ }
      else operation) := by
  refine AcceptanceOperation.ended_ite (fun hp => ?_) (by decide)
  simp only [Bool.and_eq_true, Option.isNone_iff_eq_none] at hp
  exact hp.2

theorem terminalizeInactive_fades (files : Files) :
    (terminalizeInactive files).Fades files.acceptance :=
  AcceptanceState.fades_ended (terminalizeInactive_ended files.main) rfl rfl
    fun _ session h => .inr ⟨session, h, rfl⟩

theorem AcceptanceState.releaseCompletions_fades (key capabilityDigest : String)
    (a : AcceptanceState) : (a.releaseCompletions key capabilityDigest).Fades a :=
  AcceptanceState.fades_ended (releaseCompletions_ended key capabilityDigest) rfl rfl
    fun _ session h => .inr ⟨session, h, rfl⟩

theorem AcceptanceState.invalidate_fades (key : String) (a : AcceptanceState) :
    (a.invalidate key).Fades a := by
  refine AcceptanceState.fades_ended (invalidate_ended key) rfl rfl fun key' session h => ?_
  unfold AcceptanceState.invalidate at h
  dsimp only at h
  rw [Table.lookup_modify] at h
  split at h
  · rw [Option.map_eq_some_iff] at h
    obtain ⟨old, -, rfl⟩ := h
    exact .inl rfl
  · exact .inr ⟨session, h, rfl⟩

theorem AcceptanceState.admitted_fades (key : String) (a : AcceptanceState) :
    (a.admitted key).Fades a where
  nextSequence := Nat.le_refl _
  operations key' operation h := by
    unfold AcceptanceState.admitted at h
    rw [Table.lookup_modify] at h
    split at h
    · rw [Option.map_eq_some_iff] at h
      obtain ⟨old, hold, rfl⟩ := h
      exact ⟨old, hold, rfl, rfl, fun hopen => hopen⟩
    · exact ⟨operation, h, rfl, rfl, fun hopen => hopen⟩
  sessions _ session h := .inr ⟨session, h, rfl⟩

theorem AcceptanceState.fades_session (hsession : session.evidence = ∅ ∨ ∃ old,
      a.sessions.lookup key = some old ∧ session.evidence = old.evidence) :
    ({ a with sessions := a.sessions.insert key session } : AcceptanceState).Fades a where
  nextSequence := Nat.le_refl _
  operations _ operation h := ⟨operation, h, rfl, rfl, fun hopen => hopen⟩
  sessions key' found h := by
    rcases lookup_insert_cases h with ⟨rfl, rfl⟩ | ⟨-, hold⟩
    · exact hsession
    · exact .inr ⟨found, hold, rfl⟩

theorem AcceptanceState.Attempts.insert (h : a₀.Attempts)
    (hfresh : a₀.nextSequence < record.sequence) (hnext : record.sequence ≤ a.nextSequence)
    (hoperations : ∀ key' operation, a.operations.lookup key' = some operation →
      key' = key ∧ operation = record ∨ key' ≠ key ∧ a₀.operations.lookup key' = some operation)
    (hevidence : ∀ key' session requirement evidence, a.sessions.lookup key' = some session →
      session.evidence.lookup requirement = some evidence →
        (∃ old, a₀.sessions.lookup key' = some old ∧
          old.evidence.lookup requirement = some evidence) ∨
        evidence.attemptSequence = record.sequence ∧ evidence.status = .active)
    (hsource : ∀ source, record.sourceOperationKey = some source → isDigest source = true) :
    a.Attempts where
  sequence key' operation hlookup := by
    rcases hoperations key' operation hlookup with ⟨-, rfl⟩ | ⟨-, hold⟩
    · exact hnext
    · have hle := h.sequence key' operation hold
      omega
  attempt key' session requirement evidence hsession hlookup := by
    rcases hevidence key' session requirement evidence hsession hlookup with
      ⟨old, hold, hlookup'⟩ | ⟨hsame, -⟩
    · have hle := h.attempt key' old requirement evidence hold hlookup'
      omega
    · omega
  distinct key' key'' operation operation' hlookup hlookup' hsame := by
    rcases hoperations key' operation hlookup with ⟨rfl, rfl⟩ | ⟨-, hold⟩ <;>
      rcases hoperations key'' operation' hlookup' with ⟨rfl, rfl⟩ | ⟨-, hold'⟩
    · rfl
    · have hle := h.sequence key'' operation' hold'
      omega
    · have hle := h.sequence key' operation hold
      omega
    · exact h.distinct key' key'' operation operation' hold hold' hsame
  active key' operation key'' session requirement evidence hlookup hopen hsession hfound hsame := by
    rcases hevidence key'' session requirement evidence hsession hfound with
      ⟨old, hold, hfound'⟩ | ⟨hsame', hactive⟩
    · rcases hoperations key' operation hlookup with ⟨-, rfl⟩ | ⟨-, holdOperation⟩
      · have hle := h.attempt key'' old requirement evidence hold hfound'
        omega
      · exact h.active key' operation key'' old requirement evidence holdOperation hopen hold
          hfound' hsame
    · exact hactive
  source key' operation source hlookup hcited := by
    rcases hoperations key' operation hlookup with ⟨-, rfl⟩ | ⟨-, hold⟩
    · exact hsource source hcited
    · exact h.source key' operation source hold hcited

/-- A new operation without evidence of its own. -/
theorem AcceptanceState.Attempts.insert_operation (h : a₀.Attempts)
    {sequence : Nat} (htake : a₀.takeSequence = .ok (sequence, a))
    (hsequence : record.sequence = sequence)
    (hsource : ∀ source, record.sourceOperationKey = some source → isDigest source = true) :
    ({ a with operations := a.operations.insert key record } : AcceptanceState).Attempts := by
  obtain ⟨rfl, rfl⟩ := AcceptanceState.takeSequence_ok htake
  exact h.insert (hsequence ▸ Nat.lt_succ_self _) hsequence.le
    (fun _ _ hlookup => lookup_insert_cases hlookup)
    (fun _ session _ _ hsession hfound => .inl ⟨session, hsession, hfound⟩) hsource

/-! ## The end of an operation -/

variable {main : State} {operation : AcceptanceOperation} {observation : ObservationStatus}
  {sourceDigest : String}

theorem AcceptanceState.settle_evidence {evidence : RequirementEvidence}
    (hsession : (a.settle main key operation observation sourceDigest).sessions.lookup key' =
      some session)
    (hevidence : session.evidence.lookup requirement = some evidence) :
    ∃ old oldEvidence, a.sessions.lookup key' = some old ∧
      old.evidence.lookup requirement = some oldEvidence ∧
      evidence.attemptSequence = oldEvidence.attemptSequence ∧
      (evidence = oldEvidence ∨ oldEvidence.attemptSequence = operation.sequence) := by
  unfold AcceptanceState.settle at hsession
  dsimp only at hsession
  split at hsession
  · rename_i settled hsettled
    rcases lookup_insert_cases hsession with ⟨rfl, rfl⟩ | ⟨-, hold⟩
    · rcases settleEvidence_cases hsettled with hsame |
        ⟨old, requirement', validatorId, oldEvidence, hold, -, -, hfound, -, -, hattempt, rfl⟩
      · exact ⟨session, evidence, hsame, hevidence, rfl, .inl rfl⟩
      · rcases lookup_insert_cases hevidence with ⟨rfl, rfl⟩ | ⟨-, hkept⟩
        · exact ⟨old, oldEvidence, hold, hfound, rfl, .inr hattempt⟩
        · exact ⟨old, evidence, hold, hkept, rfl, .inl rfl⟩
    · exact ⟨session, evidence, hold, hevidence, rfl, .inl rfl⟩
  · exact ⟨session, evidence, hsession, hevidence, rfl, .inl rfl⟩

theorem AcceptanceState.settle_operations {found : AcceptanceOperation}
    (h : (a.settle main key operation observation sourceDigest).operations.lookup key' =
      some found) :
    key' = key ∧ (∃ terminal, found = { operation with terminal := some terminal }) ∨
      key' ≠ key ∧ a.operations.lookup key' = some found := by
  unfold AcceptanceState.settle at h
  rcases lookup_insert_cases h with ⟨rfl, rfl⟩ | ⟨hne, hold⟩
  · exact .inl ⟨rfl, _, rfl⟩
  · exact .inr ⟨hne, hold⟩

theorem AcceptanceState.Attempts.settle (h : a.Attempts)
    (hlookup : a.operations.lookup key = some operation) :
    (a.settle main key operation observation sourceDigest).Attempts := by
  have hold : ∀ key' found,
      (a.settle main key operation observation sourceDigest).operations.lookup key' =
        some found → ∃ old, a.operations.lookup key' = some old ∧ found.sequence = old.sequence ∧
          found.sourceOperationKey = old.sourceOperationKey ∧
          (found.terminal = none → found = old ∧ key' ≠ key) := by
    intro key' found hfound
    rcases AcceptanceState.settle_operations hfound with ⟨rfl, terminal, rfl⟩ | ⟨hne, hkept⟩
    · exact ⟨operation, hlookup, rfl, rfl, nofun⟩
    · exact ⟨found, hkept, rfl, rfl, fun _ => ⟨rfl, hne⟩⟩
  constructor
  case sequence =>
    intro key' found hfound
    obtain ⟨old, hkept, hsequence, -, -⟩ := hold key' found hfound
    exact hsequence ▸ h.sequence key' old hkept
  case attempt =>
    intro key' session requirement evidence hsession hevidence
    obtain ⟨old, oldEvidence, hkept, hfound, hattempt, -⟩ :=
      AcceptanceState.settle_evidence hsession hevidence
    exact hattempt ▸ h.attempt key' old requirement oldEvidence hkept hfound
  case distinct =>
    intro key' key'' found found' hfound hfound' hsame
    obtain ⟨old, hkept, hsequence, -, -⟩ := hold key' found hfound
    obtain ⟨old', hkept', hsequence', -, -⟩ := hold key'' found' hfound'
    exact h.distinct key' key'' old old' hkept hkept' (hsequence ▸ hsequence' ▸ hsame)
  case active =>
    intro key' found key'' session requirement evidence hfound hopen hsession hevidence hsame
    obtain ⟨old, hkept, -, -, hopen'⟩ := hold key' found hfound
    obtain ⟨rfl, hne⟩ := hopen' hopen
    obtain ⟨oldSession, oldEvidence, hkeptSession, hkeptEvidence, hattempt, hcase⟩ :=
      AcceptanceState.settle_evidence hsession hevidence
    rcases hcase with rfl | hcase
    · exact h.active key' found key'' oldSession requirement evidence hkept hopen hkeptSession
        hkeptEvidence hsame
    · -- the attempt of the operation that has ended is of no other operation
      exact absurd (h.distinct key' key found operation hkept hlookup
        (hsame.symm.trans (hattempt.trans hcase))) hne
  case source =>
    intro key' found source hfound hcited
    obtain ⟨old, hkept, -, hsame, -⟩ := hold key' found hfound
    exact h.source key' old source hkept (hsame ▸ hcited)

end

end NilsCli.FinishLine
