import NilsCli.FinishLine.Attempts

/-!
# Every call keeps the attempts

Whatever a call does with the main file, it writes the acceptance file with fewer rows, with one new
operation, or with operations that end.
-/

namespace NilsCli.FinishLine

open Lib
open Durable (Keeps)

variable {key source : String} {operation : AcceptanceOperation} {session : AcceptanceSession}
  {w : World}

variable {α : Type} {acceptance : AcceptanceState}

variable (reservation : Reservation) (authentic : OwnerProcess → Bool)
  (identity : RequestIdentity) (capability : String)

variable {host : Host}

def Attempting (files : Files) : Prop := files.acceptance.Attempts

theorem load_attempts {f : Files → Locked α}
    (h : ∀ files, files.acceptance.Attempts → Keeps Attempting (f files)) :
    Keeps Attempting (Durable.load >>= f) :=
  .load_bind fun files hfiles => (h files hfiles).at hfiles

theorem saveMain_attempts (main : State) : Keeps Attempting (saveMain main) :=
  .write fun _ h => h

theorem saveAcceptance_attempts (h : acceptance.Attempts) :
    Keeps Attempting (saveAcceptance acceptance) := .write fun _ _ => h

theorem terminalizeOrphans_attempts : Keeps Attempting terminalizeOrphans := by
  unfold terminalizeOrphans
  refine load_attempts fun files hfiles => .ite (saveAcceptance_attempts ?_) (.ret _)
  exact hfiles.fades (terminalizeInactive_fades files)

theorem ensureNotReserved_attempts : Keeps Attempting ensureNotReserved :=
  .bind terminalizeOrphans_attempts fun _ => load_attempts fun _ _ => .lift _

/-! ## Sessions -/

theorem openSession_attempts (attemptToken : String)
    (owner : Option OwnerProcess) (leaseExpiresAt : Nat) :
    Keeps Attempting (openSession host identity attemptToken owner leaseExpiresAt) := by
  unfold openSession
  refine load_attempts fun files _ => ?_
  dsimp only
  split
  · split
    · exact .ite (.lift _) (.bind (saveMain_attempts _) fun _ => .ret _)
    · exact .lift_bind fun ⟨_, _⟩ _ => .bind (saveMain_attempts _) fun _ => .ret _
  · refine .lift_bind fun _ _ => .lift_bind fun ⟨_, _⟩ _ => ?_
    exact .bind (saveMain_attempts _) fun _ => .ret _

theorem recoverCheck_attempts (dead : OwnerProcess → Bool) (identity : RequestIdentity) :
    Keeps Attempting (recoverCheck dead identity) := by
  unfold recoverCheck
  refine load_attempts fun files _ => ?_
  split
  · exact .lift_bind fun _ _ => .ite (.ret _) (.ret _)
  · exact .ret _

theorem recoverCommit_attempts (dead authentic : OwnerProcess → Bool) (quiet : Bool)
    (recovery : Recovery) (attemptToken : String) (newOwner : OwnerProcess) (leaseExpiresAt : Nat) :
    Keeps Attempting
      (recoverCommit host dead authentic quiet recovery attemptToken newOwner leaseExpiresAt) := by
  unfold recoverCommit
  refine load_attempts fun files hfiles => ?_
  dsimp only
  refine .lift_bind fun _ _ => .lift_bind fun _ _ => .ite ?_ (.ret _)
  refine .lift_bind fun _ _ => .lift_bind fun _ _ => .lift_bind fun ⟨_, _⟩ _ => ?_
  refine .bind (saveAcceptance_attempts ?_) fun _ => .bind (saveMain_attempts _) fun _ => .ret _
  exact hfiles.fades (AcceptanceState.invalidate_fades _ _)

theorem releaseAcceptance_attempts (key capabilityDigest : String) :
    Keeps Attempting (releaseAcceptance key capabilityDigest) := by
  unfold releaseAcceptance
  refine load_attempts fun files hfiles => .lift_bind fun acceptance hread => ?_
  obtain rfl := readAcceptance_ok hread
  refine .ite (saveAcceptance_attempts ?_) (.ret _)
  exact hfiles.fades (AcceptanceState.releaseCompletions_fades _ _ _)

theorem release_attempts :
    Keeps Attempting (release host authentic identity capability) := by
  unfold release
  refine load_attempts fun files _ => .ite (releaseAcceptance_attempts _ _) ?_
  refine .lift_bind fun _ _ => .lift_bind fun _ _ => .lift_bind fun _ _ => ?_
  exact .lift_bind fun _ _ => .bind (saveMain_attempts _) fun _ => releaseAcceptance_attempts _ _

theorem reclaimScan_attempts (now : Nat) : Keeps Attempting (reclaimScan now) := by
  unfold reclaimScan
  exact load_attempts fun _ _ => .bind (saveMain_attempts _) fun _ => .ret _

theorem reclaimCommit_attempts (now : Nat) (candidate : OrphanCandidate) :
    Keeps Attempting (reclaimCommit host now candidate) := by
  unfold reclaimCommit
  refine load_attempts fun _ _ => .ite ?_ (.ret _)
  exact .lift_bind fun _ _ => .bind (saveMain_attempts _) fun _ => .ret _

/-! ## Edits, validation runs and shell commands -/

theorem beginEdit_attempts (operationId attemptToken : String) (snapshot : ContractSnapshot) :
    Keeps Attempting
      (beginEdit host authentic identity operationId attemptToken snapshot) := by
  unfold beginEdit
  refine load_attempts fun _ _ => .lift_bind fun _ _ => ?_
  split
  · exact .ite (.bind (saveMain_attempts _) fun _ => .ret _) (.lift _)
  · refine .lift_bind fun _ _ => .lift_bind fun _ _ => ?_
    refine .bind ensureNotReserved_attempts fun _ => load_attempts fun _ _ => ?_
    refine .lift_bind fun _ _ => .lift_bind fun _ _ => .lift_bind fun ⟨_, _⟩ _ => ?_
    exact .bind (saveMain_attempts _) fun _ => .ret _

theorem reserveShell_attempts (operationId shellDigest unit : String) (snapshot : ContractSnapshot) :
    Keeps Attempting
      (reserveShell host authentic identity capability operationId shellDigest unit snapshot) := by
  unfold reserveShell
  refine load_attempts fun _ _ => .lift_bind fun _ _ => ?_
  split
  · exact .ite (.bind (saveMain_attempts _) fun _ => .ret _) (.lift _)
  · refine .lift_bind fun _ _ => .lift_bind fun _ _ => ?_
    refine .bind ensureNotReserved_attempts fun _ => load_attempts fun _ _ => ?_
    refine .lift_bind fun _ _ => .lift_bind fun _ _ => .lift_bind fun ⟨_, _⟩ _ => ?_
    exact .bind (saveMain_attempts _) fun _ => .ret _

theorem reserveValidation_attempts (operationId : String) (target : ValidationTarget) (unit : String)
    (snapshot : ContractSnapshot) :
    Keeps Attempting
      (reserveValidation host authentic identity capability operationId target unit snapshot) := by
  unfold reserveValidation
  refine load_attempts fun _ _ => .lift_bind fun _ _ => ?_
  split
  · exact .ite (.bind (saveMain_attempts _) fun _ => .ret _) (.lift _)
  · refine .lift_bind fun _ _ => .lift_bind fun _ _ => .lift_bind fun _ _ => ?_
    refine .lift_bind fun ⟨_, _⟩ _ => .lift_bind fun _ _ => ?_
    exact .bind (saveMain_attempts _) fun _ => .ret _

theorem completeValidation_attempts (execution : StoredExecution) (snapshot : ContractSnapshot) :
    Keeps Attempting (completeValidation reservation execution snapshot) := by
  unfold completeValidation
  refine load_attempts fun _ _ => .lift_bind fun _ _ => ?_
  exact .bind (saveMain_attempts _) fun _ => .ret _

theorem completeShell_attempts (execution : StoredExecution) (snapshot : ContractSnapshot) :
    Keeps Attempting (completeShell reservation execution snapshot) := by
  unfold completeShell
  exact load_attempts fun _ _ => .lift_bind fun _ _ => saveMain_attempts _

/-! ## Acceptance -/

theorem mem_served {capabilityDigest : String}
    {generation : Nat} {targetDigest contractDigest : String}
    {row : Sigma fun _ : String => AcceptanceOperation}
    (h : row ∈ (acceptance.operations.filter fun _ operation => servedBy acceptance key
      capabilityDigest generation targetDigest contractDigest source operation).entries) :
    acceptance.operations.lookup row.1 = some row.2 ∧ row.2.terminal = none ∧
      row.2.sourceOperationKey = some source := by
  obtain ⟨hlookup, hserved⟩ := Option.filter_eq_some_iff.mp
    ((Table.lookup_filter _ _ _).symm.trans (Table.lookup_eq_some_iff.mpr h))
  simp only [servedBy, mayServe, Bool.and_eq_true, decide_eq_true_eq,
    Option.isNone_iff_eq_none] at hserved
  exact ⟨hlookup, hserved.1.1.1.2, hserved.1.2⟩

/-- Several operations end one after another. -/
theorem AcceptanceState.Attempts.settleAll {main : State}
    {rows : List (Sigma fun _ : String => AcceptanceOperation)} {a : AcceptanceState}
    (h : a.Attempts) (hrows : ∀ row ∈ rows, a.operations.lookup row.1 = some row.2)
    (hdistinct : rows.Pairwise fun row row' => row.1 ≠ row'.1) :
    (rows.foldl (fun a row => a.settle main row.1 row.2 .infrastructureBlocked source)
      a).Attempts := by
  induction rows generalizing a with
  | nil => exact h
  | cons row rows ih =>
    obtain ⟨hfirst, hdistinct⟩ := List.pairwise_cons.mp hdistinct
    refine ih (h.settle (hrows row (by simp))) (fun row' hrow' => ?_) hdistinct
    have hkept := hrows row' (by simp [hrow'])
    unfold AcceptanceState.settle
    rwa [AList.lookup_insert_ne (hfirst row' hrow').symm]

theorem recordFailure_attempts (key operationKey : String) (record : OperationRecord) :
    Keeps Attempting (recordFailure key operationKey record) := by
  unfold recordFailure
  refine load_attempts fun files hfiles => .lift_bind fun _ _ => .lift_bind fun acceptance hread => ?_
  obtain rfl := readAcceptance_ok hread
  refine .lift_bind fun _ _ => saveAcceptance_attempts ?_
  exact hfiles.settleAll (fun row hrow => (mem_served hrow).1)
    (List.nodupKeys_iff_pairwise.mp (Table.filter _ _).nodupKeys)

theorem failValidation_attempts : Keeps Attempting (failValidation reservation) := by
  unfold failValidation
  exact load_attempts fun _ _ => .lift_bind fun _ _ => recordFailure_attempts _ _ _

theorem quiesceCheck_attempts (operationId : String) :
    Keeps Attempting (quiesceCheck host authentic identity capability operationId) := by
  unfold quiesceCheck
  exact load_attempts fun _ _ => .lift_bind fun _ _ => .ret _

theorem quiesceCommit_attempts (pending : Reservation) :
    Keeps Attempting (quiesceCommit pending) := by
  unfold quiesceCommit
  refine load_attempts fun _ _ => ?_
  dsimp only
  refine .ite (.ite ?_ (saveMain_attempts _)) (saveMain_attempts _)
  exact .bind (recordFailure_attempts _ _ _) fun _ => saveMain_attempts _

theorem register_attempts (contract : AcceptanceContract) (contractDigest : String) :
    Keeps Attempting
      (register host authentic identity capability contract contractDigest) := by
  unfold register
  refine load_attempts fun _ _ => .lift_bind fun _ _ => .lift_bind fun _ _ => ?_
  refine .bind terminalizeOrphans_attempts fun _ => load_attempts fun current hcurrent => ?_
  dsimp only
  split
  · rename_i existing hexisting
    refine .ite (.lift_bind fun ⟨_, taken⟩ htake => ?_) (.lift _)
    refine .bind (saveAcceptance_attempts ?_) fun _ => .ret _
    obtain ⟨rfl, rfl⟩ := AcceptanceState.takeSequence_ok htake
    have htaken := AcceptanceState.takeSequence_sub htake
    refine hcurrent.fades ((AcceptanceState.compactReleased_sub host _ _).fades.trans
      (AcceptanceState.Fades.trans ?_
        (htaken.trans (AcceptanceState.compactSources_sub _ _)).fades))
    exact AcceptanceState.fades_session (.inr ⟨existing, hexisting, rfl⟩)
  · refine .lift_bind fun ⟨_, taken⟩ htake => .lift_bind fun _ _ => ?_
    refine .bind (saveAcceptance_attempts ?_) fun _ => .ret _
    have htaken := AcceptanceState.takeSequence_sub htake
    refine hcurrent.fades ((AcceptanceState.compactReleased_sub host _ _).fades.trans
      (AcceptanceState.Fades.trans ?_
        (htaken.trans (AcceptanceState.compactSources_sub _ _)).fades))
    exact AcceptanceState.fades_session (.inl rfl)

theorem reconcileReserved_attempts (h : acceptance.Attempts)
    (main : State) (operationKey : String) (operation : AcceptanceOperation) :
    Keeps Attempting (reconcileReserved main acceptance operationKey operation) := by
  have hadmitted : ((acceptance.admitted operationKey).compactSources
      operation.generation).Attempts :=
    (h.fades (AcceptanceState.admitted_fades _ _)).sub (AcceptanceState.compactSources_sub _ _)
  unfold reconcileReserved
  refine .lift_bind fun _ _ => .ite ?_ (.lift_bind fun _ _ => saveAcceptance_attempts hadmitted)
  exact .bind (saveMain_attempts _) fun _ => saveAcceptance_attempts hadmitted

theorem admitMutation_attempts (h : acceptance.Attempts) (files : Files) (operationKey : String)
    (hsource : ∀ source, operation.sourceOperationKey = some source → isDigest source = true) :
    Keeps Attempting (admitMutation host files acceptance operationKey operation) := by
  unfold admitMutation
  refine .lift_bind fun _ _ => .lift_bind fun generation _ => ?_
  refine .lift_bind fun ⟨sequence, taken⟩ htake => ?_
  have hreserved : ({ taken with
      operations := taken.operations.insert operationKey
        { operation with generation, sequence, admission := .reserved } } :
      AcceptanceState).Attempts := h.insert_operation htake rfl hsource
  refine .bind (saveAcceptance_attempts (hreserved.sub
    (AcceptanceState.compactReleased_sub host _ _))) fun _ => ?_
  refine .bind (saveMain_attempts _) fun _ => saveAcceptance_attempts ?_
  exact ((hreserved.sub (AcceptanceState.compactReleased_sub host _ _)).fades
    (AcceptanceState.admitted_fades _ _)).sub (AcceptanceState.compactSources_sub _ _)

theorem admitValidator_attempts (h : acceptance.Attempts)
    (files : Files) (operationKey requirement validatorId : String)
    (hsession : acceptance.sessions.lookup operation.sessionKey = some session)
    (hsource : ∀ source, operation.sourceOperationKey = some source → isDigest source = true) :
    Keeps Attempting (admitValidator host files acceptance session operationKey requirement
      validatorId operation) := by
  unfold admitValidator
  refine .lift_bind fun _ _ => .lift_bind fun ⟨sequence, taken⟩ htake => .lift_bind fun _ _ => ?_
  obtain ⟨hsequence, rfl⟩ := AcceptanceState.takeSequence_ok htake
  refine saveAcceptance_attempts (AcceptanceState.Attempts.sub ?_
    (AcceptanceState.compactReleased_sub host _ _))
  refine h.insert (hsequence ▸ Nat.lt_succ_self _) (Nat.le_refl _)
    (fun _ _ hlookup => lookup_insert_cases hlookup) ?_ hsource
  intro key' found requirement' evidence hfound hevidence
  rcases lookup_insert_cases hfound with ⟨rfl, rfl⟩ | ⟨-, hold⟩
  · rcases lookup_insert_cases hevidence with ⟨-, rfl⟩ | ⟨-, hkept⟩
    · exact .inr ⟨rfl, rfl⟩
    · -- claiming the cited run leaves the evidence
      refine .inl ⟨session, hsession, ?_⟩
      split at hkept <;> exact hkept
  · exact .inl ⟨found, hold, hevidence⟩

theorem validateAdmissionBinding_source
    (hdigest : ∀ key operationId, isDigest (host.operationKey key operationId) = true)
    {request : AdmitOperation} {source : Option String}
    (h : validateAdmissionBinding host session key request = .ok source) (cited : String)
    (hcited : source = some cited) : isDigest cited = true := by
  cases request with
  | mutation bindingDigest =>
    unfold validateAdmissionBinding at h
    rw [ensure_bind_ok] at h
    cases h.2
    cases hcited
  | validator requirement validatorId bindingDigest sourceId =>
    unfold validateAdmissionBinding at h
    rw [orErr_bind_ok] at h
    obtain ⟨validator, -, h⟩ := h
    split at h
    · cases h
      cases hcited
    · cases h
      cases hcited
      exact hdigest _ _
    · cases h
    · cases h

theorem admit_attempts
    (hdigest : ∀ key operationId, isDigest (host.operationKey key operationId) = true)
    (authentic : OwnerProcess → Bool) (identity : RequestIdentity)
    (capability contractDigest operationId attemptToken : String) (request : AdmitOperation) :
    Keeps Attempting (admit_ host authentic identity capability contractDigest operationId
      attemptToken request) := by
  unfold admit_
  refine load_attempts fun _ _ => .lift_bind fun _ _ => .lift_bind fun _ _ => ?_
  refine .bind terminalizeOrphans_attempts fun _ => load_attempts fun files hfiles => ?_
  refine .lift_bind fun session hsession => .lift_bind fun source hsource => ?_
  have hcompact := hfiles.sub (files.acceptance.compact_sub files.main.generation)
  have hcited := validateAdmissionBinding_source hdigest hsource
  obtain ⟨hlookup, -⟩ := acceptanceSession_ok hsession
  dsimp only
  split
  · refine .ite (.ite ?_ (.ret _)) (.lift _)
    exact .bind (reconcileReserved_attempts hcompact _ _ _) fun _ => .ret _
  · refine .lift_bind fun _ _ => .lift_bind fun _ _ => ?_
    split
    · exact .bind (admitMutation_attempts hcompact _ _ hcited) fun _ => .ret _
    · exact .bind (admitValidator_attempts hcompact _ _ _ _ hlookup hcited) fun _ => .ret _

theorem observe_attempts (operationId : String) (observation : Observation) :
    Keeps Attempting
      (observe host authentic identity capability operationId observation) := by
  unfold observe
  refine load_attempts fun files hfiles => .lift_bind fun _ _ => .lift_bind fun acceptance hread => ?_
  refine .lift_bind fun existing hfound => .lift_bind fun _ _ => .lift_bind fun _ _ => ?_
  refine .lift_bind fun _ _ => .lift_bind fun ⟨_, _, _⟩ _ => .lift_bind fun _ _ => ?_
  rw [orErr_eq_ok] at hfound
  obtain rfl := readAcceptance_ok hread
  split
  · exact .lift_bind fun _ _ => .ret _
  · refine .lift_bind fun _ _ => .bind (saveAcceptance_attempts ?_) fun _ => .ret _
    exact hfiles.settle hfound

theorem reserveCompletion_attempts (h : acceptance.Attempts)
    (files : Files) (identity : RequestIdentity)
    (capabilityDigest contractDigest operationId : String) :
    Keeps Attempting (reserveCompletion host files acceptance identity capabilityDigest
      contractDigest operationId) := by
  unfold reserveCompletion
  dsimp only
  split
  · exact .lift _
  · refine .lift_bind fun _ _ => .lift_bind fun ⟨_, _⟩ htake => saveAcceptance_attempts ?_
    have hcompact := h.sub (acceptance.compact_sub files.main.generation)
    refine AcceptanceState.Attempts.sub ?_ (AcceptanceState.compactReleased_sub host _ _)
    exact hcompact.insert_operation htake rfl fun _ hcited => by cases hcited

theorem verdict_attempts (contractDigest : String) (completion : Option String)
    (snapshot : ContractSnapshot) :
    Keeps Attempting
      (verdict host authentic identity capability contractDigest completion snapshot) := by
  unfold verdict
  refine load_attempts fun _ _ => .lift_bind fun _ _ => .lift_bind fun _ _ => ?_
  refine .bind terminalizeOrphans_attempts fun _ => load_attempts fun files hfiles => ?_
  have hsources := hfiles.sub (files.acceptance.compactSources_sub files.main.generation)
  dsimp only
  refine .ite (.bind (saveAcceptance_attempts hsources) fun _ => ?_) ?_
  all_goals
    refine .lift_bind fun _ _ => ?_
    split
    · exact .ite (.bind (reserveCompletion_attempts hsources _ _ _ _ _) fun _ => .ret _) (.ret _)
    · exact .ret _

/-! ## The finish line -/

theorem discard_attempts {m : Locked α} (h : Keeps Attempting m) :
    Keeps Attempting (discard m) := .bind h fun _ => .ret _

theorem capture_attempts {f : α → InFlight} {m : Locked (Option α)}
    (h : Keeps Attempting m) : Keeps Attempting (capture f m) := .bind h fun _ => .ret _

section
variable (hdigest : ∀ key operationId, isDigest (host.operationKey key operationId) = true)
include hdigest

theorem Call.run_attempts (call : Call) : Keeps Attempting (call.run host) := by
  cases call with
  | «open» => exact discard_attempts (openSession_attempts _ _ _ _)
  | recover => exact capture_attempts (recoverCheck_attempts _ _)
  | rotate => exact discard_attempts (recoverCommit_attempts _ _ _ _ _ _ _)
  | release => exact discard_attempts (release_attempts _ _ _)
  | scan => exact .bind (reclaimScan_attempts _) fun _ => .ret _
  | reclaim => exact discard_attempts (reclaimCommit_attempts _ _)
  | begin => exact discard_attempts (beginEdit_attempts _ _ _ _ _)
  | validate => exact capture_attempts (reserveValidation_attempts _ _ _ _ _ _ _)
  | validated => exact discard_attempts (completeValidation_attempts _ _ _)
  | validationFailed => exact discard_attempts (failValidation_attempts _)
  | shell => exact capture_attempts (reserveShell_attempts _ _ _ _ _ _ _)
  | shellDone => exact discard_attempts (completeShell_attempts _ _ _)
  | quiesce => exact capture_attempts (quiesceCheck_attempts _ _ _ _)
  | quiesced => exact discard_attempts (quiesceCommit_attempts _)
  | register => exact discard_attempts (register_attempts _ _ _ _ _)
  | admit_ => exact discard_attempts (admit_attempts hdigest _ _ _ _ _ _ _)
  | observe => exact discard_attempts (observe_attempts _ _ _ _ _)
  | verdict => exact discard_attempts (verdict_attempts _ _ _ _ _ _)

theorem step_attempts {l : Call × Nat} {w' : World} (hstep : (finishLine host).step l w w')
    (h : w.files.acceptance.Attempts) : w'.files.acceptance.Attempts := by
  obtain ⟨call, writes⟩ := l
  obtain ⟨-, captured, rfl, -⟩ := World.next_cases hstep
  show ((w.writes (((call.run host) w.files).1.take writes)).files).acceptance.Attempts
  rw [World.writes_files]
  refine (Call.run_attempts hdigest call).stops h ?_
  unfold Durable.lastOf
  cases hlast : (((call.run host) w.files).1.take writes).getLast? with
  | none => exact .inl rfl
  | some files => exact .inr (List.mem_of_mem_take (List.mem_of_getLast? hlast))

theorem reach_attempts (h : (finishLine host).Reach w) :
    w.files.acceptance.Attempts := by
  refine Lts.Reach.invariant (S := finishLine host)
    (I := fun w => (World.files w).acceptance.Attempts) ?_ ?_ h
  · rintro w rfl
    exact attempts_new
  · intro l s t hs hstep
    exact step_attempts hdigest hstep hs

end

end NilsCli.FinishLine
