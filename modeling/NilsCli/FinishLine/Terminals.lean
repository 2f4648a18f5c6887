import NilsCli.FinishLine.AttemptCalls

/-!
# Admitted work can end

The last save has counted a terminal for every operation that has not ended, and a longer status for
every evidence that is active.
-/

namespace NilsCli.FinishLine

open Lib

section
variable {repoDigest : String} {a a' : AcceptanceState}

/-- Some operations end, and no session gets heavier. -/
theorem AcceptanceState.projected_ended {f : AcceptanceOperation → AcceptanceOperation}
    (hended : ∀ operation : AcceptanceOperation, operation.Ended (f operation))
    (hnext : a'.nextSequence = a.nextSequence)
    (hoperations : a'.operations = a.operations.mapVal fun _ operation => f operation)
    (hsize : a'.sessions.size = a.sessions.size)
    (hsessions : a'.sessions.total AcceptanceSession.weight ≤
      a.sessions.total AcceptanceSession.weight) :
    a'.projectedTerminalStateBytes repoDigest ≤ a.projectedTerminalStateBytes repoDigest := by
  refine AcceptanceState.projected_le hnext hsize ?_ hsessions ?_
  · rw [hoperations, Table.size_mapVal]
  · rw [hoperations]
    refine Table.total_mapVal_le fun key operation _ => ?_
    rcases hended operation with hsame | ⟨hopen, terminal, hterminal, hsame⟩
    · rw [hsame]
    · rw [hsame]
      exact AcceptanceOperation.weight_ended key hopen hterminal

theorem projected_terminalizeInactive (files : Files) :
    (terminalizeInactive files).projectedTerminalStateBytes repoDigest ≤
      files.acceptance.projectedTerminalStateBytes repoDigest :=
  AcceptanceState.projected_ended (terminalizeInactive_ended files.main) rfl rfl rfl
    (Nat.le_refl _)

theorem AcceptanceState.projected_releaseCompletions (key capabilityDigest : String)
    (a : AcceptanceState) :
    (a.releaseCompletions key capabilityDigest).projectedTerminalStateBytes repoDigest ≤
      a.projectedTerminalStateBytes repoDigest :=
  AcceptanceState.projected_ended (releaseCompletions_ended key capabilityDigest) rfl rfl rfl
    (Nat.le_refl _)

theorem AcceptanceState.projected_invalidate (key : String) (a : AcceptanceState) :
    (a.invalidate key).projectedTerminalStateBytes repoDigest ≤
      a.projectedTerminalStateBytes repoDigest := by
  refine AcceptanceState.projected_ended (invalidate_ended key) rfl rfl
    (Table.size_mapVal _ _) (Table.total_mapVal_le fun key' session _ => ?_)
  dsimp only
  split
  · exact AcceptanceSession.weight_cleared key' session
  · exact Nat.le_refl _

variable {main : State} {key sourceDigest : String} {operation : AcceptanceOperation}
  {observation : ObservationStatus}

theorem AcceptanceState.Attempts.settled_weight (h : a.Attempts) {status : RequirementStatus}
    {settled : AcceptanceSession} (hlookup : a.operations.lookup key = some operation)
    (hopen : operation.terminal = none)
    (hsettled : (settleEvidence main (a.sessions.lookup operation.sessionKey) operation status).2 =
      some settled) :
    ∃ old, a.sessions.lookup operation.sessionKey = some old ∧
      settled.weight operation.sessionKey ≤ old.weight operation.sessionKey := by
  rcases settleEvidence_cases hsettled with hsame |
    ⟨old, requirement, validatorId, evidence, hold, -, -, hfound, -, -, hattempt, rfl⟩
  · exact ⟨settled, hsame, Nat.le_refl _⟩
  · refine ⟨old, hold, AcceptanceSession.weight_evidence
      (Table.size_insert_of_lookup hfound _) ?_⟩
    have hactive := h.active key operation operation.sessionKey old requirement evidence hlookup
      hopen hold hfound hattempt
    have hweight := RequirementEvidence.weight_settled requirement hactive status
    have htotal := Table.total_insert RequirementEvidence.weight hfound { evidence with status }
    omega

theorem AcceptanceState.Attempts.projected_settle (h : a.Attempts)
    (hlookup : a.operations.lookup key = some operation) (hopen : operation.terminal = none)
    (hsource : utf8Size (jsonString sourceDigest) ≤ 73) :
    (a.settle main key operation observation sourceDigest).projectedTerminalStateBytes repoDigest ≤
      a.projectedTerminalStateBytes repoDigest := by
  have hsessions :
      (a.settle main key operation observation sourceDigest).sessions.size = a.sessions.size ∧
        (a.settle main key operation observation sourceDigest).sessions.total
          AcceptanceSession.weight ≤ a.sessions.total AcceptanceSession.weight := by
    unfold AcceptanceState.settle
    dsimp only
    split
    · rename_i settled hsettled
      obtain ⟨old, hold, hweight⟩ := h.settled_weight hlookup hopen hsettled
      have htotal := Table.total_insert AcceptanceSession.weight hold settled
      exact ⟨Table.size_insert_of_lookup hold settled, by omega⟩
    · exact ⟨rfl, Nat.le_refl _⟩
  refine AcceptanceState.projected_le rfl hsessions.1 (Table.size_insert_of_lookup hlookup _)
    hsessions.2 ?_
  unfold AcceptanceState.settle
  dsimp only
  generalize (settleEvidence main (a.sessions.lookup operation.sessionKey) operation
    observation.requirementStatus).1 = disposition
  have hweight := @AcceptanceOperation.weight_ended key operation
    ⟨observation, sourceDigest, disposition⟩ hopen hsource
  have htotal := Table.total_insert AcceptanceOperation.weight hlookup
    { operation with terminal := some ⟨observation, sourceDigest, disposition⟩ }
  omega

/-- Several operations end one after another. -/
theorem AcceptanceState.Attempts.projected_settleAll
    {rows : List (Sigma fun _ : String => AcceptanceOperation)} (h : a.Attempts)
    (hrows : ∀ row ∈ rows, a.operations.lookup row.1 = some row.2 ∧ row.2.terminal = none ∧
      utf8Size (jsonString sourceDigest) ≤ 73)
    (hdistinct : rows.Pairwise fun row row' => row.1 ≠ row'.1) :
    (rows.foldl (fun a row => a.settle main row.1 row.2 .infrastructureBlocked sourceDigest)
      a).projectedTerminalStateBytes repoDigest ≤ a.projectedTerminalStateBytes repoDigest := by
  induction rows generalizing a with
  | nil => exact Nat.le_refl _
  | cons row rows ih =>
    obtain ⟨hfirst, hdistinct⟩ := List.pairwise_cons.mp hdistinct
    obtain ⟨hlookup, hopen, hsource⟩ := hrows row (by simp)
    refine (ih (h.settle hlookup) (fun row' hrow' => ?_) hdistinct).trans
      (h.projected_settle hlookup hopen hsource)
    obtain ⟨hkept, hrest⟩ := hrows row' (by simp [hrow'])
    refine ⟨?_, hrest⟩
    unfold AcceptanceState.settle
    rwa [AList.lookup_insert_ne (hfirst row' hrow').symm]

end

/-! ## Calls -/

def SaveFits (repoDigest : String) (_ files : Files) : Prop := files.acceptance.Fits repoDigest

section
variable {host : Host} {repoDigest : String} {files : Files}

section

variable (hfits : files.acceptance.Fits repoDigest)

include hfits

theorem terminalizeOrphans_fits :
    Durable.Writes (SaveFits repoDigest) files terminalizeOrphans := by
  unfold terminalizeOrphans
  refine .load_bind (.ite (fun _ => .write ?_) fun _ => .ret _)
  exact (projected_terminalizeInactive files).trans hfits

theorem releaseAcceptance_fits
    (key capabilityDigest : String) :
    Durable.Writes (SaveFits repoDigest) files (releaseAcceptance key capabilityDigest) := by
  unfold releaseAcceptance
  refine .load_bind (.lift_bind fun acceptance hread => ?_)
  obtain rfl := readAcceptance_ok hread
  refine .ite (fun _ => .write ?_) fun _ => .ret _
  exact (AcceptanceState.projected_releaseCompletions _ _ _).trans hfits

theorem recoverCommit_fits
    (dead authentic : OwnerProcess → Bool) (quiet : Bool) (recovery : Recovery)
    (attemptToken : String) (newOwner : OwnerProcess) (leaseExpiresAt : Nat) :
    Durable.Writes (SaveFits repoDigest) files (recoverCommit host dead authentic quiet recovery
      attemptToken newOwner leaseExpiresAt) := by
  unfold recoverCommit
  refine .load_bind ?_
  dsimp only
  refine .lift_bind fun _ _ => .lift_bind fun _ _ => .ite (fun _ => ?_) fun _ => .ret _
  refine .lift_bind fun _ _ => .lift_bind fun _ _ => .lift_bind fun ⟨_, _⟩ _ => ?_
  have hinvalid : (files.acceptance.invalidate recovery.identity.sessionKey).Fits repoDigest :=
    (AcceptanceState.projected_invalidate _ _).trans hfits
  exact .write_bind hinvalid (.write_bind hinvalid (.ret _))

end

theorem observationBinding_source
    (hdigest : ∀ key operationId, isDigest (host.operationKey key operationId) = true)
    {key sourceDigest : String} {execution : Option ValidatorExecution} {observation : Observation}
    {stated : Option ObservationStatus} {source : Option String}
    (h : observationBinding host key execution observation = .ok (sourceDigest, stated, source)) :
    utf8Size (jsonString sourceDigest) ≤ 73 := by
  unfold observationBinding at h
  split at h
  · split at h
    · cases h
    · cases h
      decide
  · split at h
    · cases h
      exact (utf8Size_digest (hdigest _ _)).le
    · cases h

theorem observe_fits
    (hdigest : ∀ key operationId, isDigest (host.operationKey key operationId) = true)
    (hattempts : files.acceptance.Attempts) (hfits : files.acceptance.Fits repoDigest)
    (authentic : OwnerProcess → Bool) (identity : RequestIdentity)
    (capability operationId : String) (observation : Observation) :
    Durable.Writes (SaveFits repoDigest) files
      (observe host authentic identity capability operationId observation) := by
  unfold observe
  refine .load_bind ?_
  dsimp only
  refine .lift_bind fun _ _ => .lift_bind fun acceptance hread => .lift_bind fun existing hfound => ?_
  refine .lift_bind fun _ _ => .lift_bind fun _ _ => .lift_bind fun _ _ => ?_
  refine .lift_bind fun ⟨sourceDigest, stated, source⟩ hbinding => .lift_bind fun _ _ => ?_
  rw [orErr_eq_ok] at hfound
  obtain rfl := readAcceptance_ok hread
  split
  · exact .lift_bind fun _ _ => .ret _
  · rename_i hopen
    refine .lift_bind fun observed _ => .write_bind ?_ (.ret _)
    exact (hattempts.projected_settle hfound hopen
      (observationBinding_source hdigest hbinding)).trans hfits

theorem recordFailure_fits (hattempts : files.acceptance.Attempts)
    (hfits : files.acceptance.Fits repoDigest) (key operationKey : String)
    (record : OperationRecord) :
    Durable.Writes (SaveFits repoDigest) files (recordFailure key operationKey record) := by
  unfold recordFailure
  refine .load_bind (.lift_bind fun _ _ => .lift_bind fun acceptance hread => ?_)
  refine .lift_bind fun _ _ => .write ?_
  obtain rfl := readAcceptance_ok hread
  refine (hattempts.projected_settleAll (fun row hrow => ?_)
    (List.nodupKeys_iff_pairwise.mp (Table.filter _ _).nodupKeys)).trans hfits
  obtain ⟨hlookup, hopen, hcited⟩ := mem_served hrow
  exact ⟨hlookup, hopen, (utf8Size_digest (hattempts.source _ _ _ hlookup hcited)).le⟩

end

/-- From every reachable state whose last save was accepted, every save of an observation, of a
failed run, of a release, of the reservations that are gone and of a crashed session passes the size
check. -/
theorem terminals_fit (host : Host) (repoDigest : String)
    (hdigest : ∀ key operationId, isDigest (host.operationKey key operationId) = true)
    {w : World} (h : (finishLine host).Reach w) (hsaved : w.files.acceptance.Fits repoDigest) :
    (∀ authentic identity capability operationId observation,
      Durable.Writes (SaveFits repoDigest) w.files
        (observe host authentic identity capability operationId observation)) ∧
    (∀ key operationKey record,
      Durable.Writes (SaveFits repoDigest) w.files (recordFailure key operationKey record)) ∧
    (∀ key capabilityDigest,
      Durable.Writes (SaveFits repoDigest) w.files (releaseAcceptance key capabilityDigest)) ∧
    Durable.Writes (SaveFits repoDigest) w.files terminalizeOrphans ∧
    ∀ dead authentic quiet recovery attemptToken newOwner leaseExpiresAt,
      Durable.Writes (SaveFits repoDigest) w.files (recoverCommit host dead authentic quiet recovery
        attemptToken newOwner leaseExpiresAt) := by
  have hattempts := reach_attempts hdigest h
  exact ⟨observe_fits hdigest hattempts hsaved, recordFailure_fits hattempts hsaved,
    releaseAcceptance_fits hsaved, terminalizeOrphans_fits hsaved, recoverCommit_fits hsaved⟩

/-- A host whose keys are digests. -/
def digestHost : Host :=
  { sampleHost with
    operationKey := fun session operation =>
      if session = "s" ∧ operation = "o" then
        "sha256:44b6ccc354403df099e640d76021583f8e1733e3ee2ef798ae1f4b76c7d0675d"
      else "sha256:0000000000000000000000000000000000000000000000000000000000000000" }

def digestNext (w : World) (sample : SampleCall) : Option World := do
  let call ← sample.call w.inFlight
  w.next digestHost call 10

/-- A validator has been admitted. -/
def admittedWorld : World := ([.open, .register, .admit_].foldlM digestNext .start).getD .start

theorem terminals_fit_admitted :
    (admittedWorld.files.acceptance.operations.values.any fun operation =>
      operation.terminal.isNone) = true ∧
    Durable.Writes (SaveFits "sha256:") admittedWorld.files
      (observe digestHost (fun _ => true) sampleIdentity "sai" "o" (.hostObserved .succeeded)) := by
  have hdigest : ∀ key operationId, isDigest (digestHost.operationKey key operationId) = true := by
    intro key operationId
    unfold digestHost
    dsimp only
    split <;> decide
  have hrun : ([.open, .register, .admit_].foldlM digestNext World.start).isSome := by
    decide +kernel
  have hreach : (finishLine digestHost).Reach admittedWorld := by
    obtain ⟨w, hw⟩ := Option.isSome_iff_exists.mp hrun
    have hworld : admittedWorld = w := by
      rw [admittedWorld, hw]
      rfl
    rw [hworld]
    refine Lts.Reach.of_foldlM (S := finishLine digestHost) (fun s sample t hstep => ?_) hw
      (.init rfl)
    obtain ⟨call, -, hnext⟩ := Option.bind_eq_some_iff.mp hstep
    exact ⟨(call, 10), hnext⟩
  have hsaved : admittedWorld.files.acceptance.Fits "sha256:" := by decide +kernel
  exact ⟨by decide +kernel, (terminals_fit digestHost "sha256:" hdigest hreach hsaved).1
    (fun _ => true) sampleIdentity "sai" "o" (.hostObserved .succeeded)⟩

end NilsCli.FinishLine
