import NilsCli.FinishLine.Changes

/-!
# What each call writes

Every write of every call is a change of the files. A call reads the files once, checks what it has
to check, and writes; the second part of a call that has dropped the lock checks again what it has
found before.
-/

namespace NilsCli.FinishLine

open Lib
open Durable (Writes)

variable {operation : OperationRecord} {succeeds : String → AcceptanceOperation → Prop}
  {p : AcceptanceOperation → Bool} {terminal : AcceptanceTerminal} {α : Type} {count : Nat}
  {u : Unit} {contractDigest : Option String} {execution : StoredExecution}

variable {main taken : State} {acceptance : AcceptanceState} {key digest key' : String}
  {session : SessionState} {generation : Nat} {ν : Type} {target : TargetState}
  {record : OperationRecord}

variable (host : Host) {strict : Prop} {files : Files}

variable (authentic : OwnerProcess → Bool) (identity : RequestIdentity)
  (capability operationId : String)

/-- A write of the main file that keeps less. -/
theorem Change.saveMain (h : main.Within files.main) :
    Writes (Change strict) files (saveMain main) := .write (.shrink h)

theorem Change.saveAcceptance (h : acceptance.Within files) :
    Writes (Change strict) files (saveAcceptance acceptance) := .write (.accept h)

/-! ## Sessions -/

theorem State.grant_within {attemptToken : String}
    {incarnation leaseExpiresAt : Nat} {owner : Option OwnerProcess}
    (h : ∀ digest target, session.targets.lookup digest = some target →
      main.target key digest = some target) :
    ({ main with
      sessions := main.sessions.insert key
        (session.grant host key attemptToken incarnation owner leaseExpiresAt) } : State).Within
      main := State.within_insert h

theorem State.target_of_session
    (h : main.sessions.lookup key = some session) (digest : String) (target : TargetState)
    (htarget : session.targets.lookup digest = some target) :
    main.target key digest = some target := by
  unfold State.target
  rw [h]
  exact htarget

theorem openSession_writes (attemptToken : String)
    (owner : Option OwnerProcess) (leaseExpiresAt : Nat) :
    Writes (Change strict) files
      (openSession host identity attemptToken owner leaseExpiresAt) := by
  unfold openSession
  refine .load_bind ?_
  dsimp only
  have hcompact := files.main.compactSessions_within
  split
  · rename_i session hsession
    have hold := State.target_of_session hsession
    split
    · refine .ite (fun _ => .lift _) fun _ => ?_
      refine .write_bind (.shrink ?_) (.ret _)
      refine State.Within.trans ?_ hcompact
      exact State.within_insert fun digest target h => hold digest target h
    · refine .lift_bind fun ⟨incarnation, main⟩ htake => ?_
      refine .write_bind (.shrink ?_) (.ret _)
      have htaken := State.takeSequence_ok htake
      refine State.Within.trans ?_ ((State.takeSequence_within htake).trans hcompact)
      refine State.grant_within host fun digest target h => ?_
      rw [htaken.2]
      exact hold digest target h
  · refine .lift_bind fun _ _ => ?_
    refine .lift_bind fun ⟨incarnation, main⟩ htake => ?_
    refine .write_bind (.shrink ?_) (.ret _)
    refine State.Within.trans ?_ ((State.takeSequence_within htake).trans hcompact)
    exact State.grant_within host fun digest target h => by cases h

theorem recoverCheck_writes (dead : OwnerProcess → Bool) (identity : RequestIdentity) :
    Writes (Change strict) files (recoverCheck dead identity) := by
  unfold recoverCheck
  refine .load_bind ?_
  dsimp only
  split
  · refine .lift_bind fun _ _ => ?_
    split
    · exact .ret _
    · exact .ret _
  · exact .ret _

theorem recoveredGeneration_ok
    (h : recoveredGeneration main session = .ok generation) : main.generation ≤ generation := by
  unfold recoveredGeneration at h
  split at h
  · rw [checkedSucc_ok h]
    exact Nat.le_succ _
  · cases h
    exact le_rfl

theorem OldOperation.refl {operation : AcceptanceOperation}
    (h : files.acceptance.operations.lookup key = some operation) :
    OldOperation files key operation := ⟨operation, h, .inl rfl⟩

theorem OldSession.refl {session : AcceptanceSession}
    (h : files.acceptance.sessions.lookup key = some session) :
    OldSession files succeeds key session := .inr ⟨session, h, rfl, rfl, fun _ _ h => .inl h⟩

theorem AcceptanceState.WithinOf.refl (files : Files) : files.acceptance.WithinOf succeeds files :=
  ⟨Nat.le_refl _, fun _ _ h => .refl h, fun _ _ h _ _ _ => h, fun _ _ h => .refl h⟩

theorem OldOperation.ended {acceptance : Table String AcceptanceOperation}
    (hacceptance : acceptance = files.acceptance.operations.mapVal fun _ operation =>
      if p operation then { operation with terminal := some terminal } else operation)
    (hopen : ∀ key operation, files.acceptance.operations.lookup key = some operation →
      p operation → operation.terminal = none ∧ operation.kind ≠ .mutation)
    (hterminal : terminal.observation ≠ .succeeded) {key : String}
    {operation : AcceptanceOperation} (h : acceptance.lookup key = some operation) :
    OldOperation files key operation := by
  rw [hacceptance, Table.lookup_mapVal, Option.map_eq_some_iff] at h
  obtain ⟨old, hold, rfl⟩ := h
  split
  · rename_i hp
    have hterm := hopen key old hold hp
    exact ⟨old, hold, .inr ⟨hterm.1, fun hkind => absurd hkind hterm.2, terminal, rfl,
      fun hsuccess => absurd hsuccess hterminal⟩⟩
  · exact .refl hold

theorem reserved_of_ended {acceptance : Table String AcceptanceOperation}
    (hacceptance : acceptance = files.acceptance.operations.mapVal fun _ operation =>
      if p operation then { operation with terminal := some terminal } else operation)
    {key : String} {operation : AcceptanceOperation}
    (hlookup : files.acceptance.operations.lookup key = some operation) (hp : ¬ p operation) :
    acceptance.lookup key = some operation := by
  rw [hacceptance, Table.lookup_mapVal, hlookup, Option.map_some, if_neg hp]

theorem invalidate_within (h : recoveryEligible files key) :
    (files.acceptance.invalidate key).Within files where
  nextSequence := Nat.le_refl _
  operations key' operation hlookup := by
    refine OldOperation.ended rfl (fun key'' old hold hp => ?_) (by simp) hlookup
    rw [Bool.and_eq_true, Option.isNone_iff_eq_none] at hp
    refine ⟨hp.2, fun hkind => ?_⟩
    have hall := List.all_eq_true.mp h old (Table.mem_values_iff.mpr ⟨key'', hold⟩)
    simp [hp.2, hkind, of_decide_eq_true hp.1] at hall
  reserved key' operation hlookup hkind hterminal _ := by
    refine reserved_of_ended rfl hlookup fun hp => ?_
    rw [Bool.and_eq_true] at hp
    have hall := List.all_eq_true.mp h operation (Table.mem_values_iff.mpr ⟨key', hlookup⟩)
    simp [hterminal, hkind, of_decide_eq_true hp.1] at hall
  sessions key' session hlookup := by
    unfold AcceptanceState.invalidate at hlookup
    dsimp only at hlookup
    rw [Table.lookup_modify] at hlookup
    split at hlookup
    · rw [Option.map_eq_some_iff] at hlookup
      obtain ⟨old, -, rfl⟩ := hlookup
      exact .inl rfl
    · exact .refl hlookup

/-- The acceptance file is written first: the evidence of the dead owner goes before its session does. -/
theorem recoverCommit_writes (dead authentic : OwnerProcess → Bool) (quiet : Bool)
    (recovery : Recovery) (attemptToken : String) (newOwner : OwnerProcess) (leaseExpiresAt : Nat) :
    Writes (Change strict) files (recoverCommit host dead authentic quiet recovery
      attemptToken newOwner leaseExpiresAt) := by
  unfold recoverCommit
  refine .load_bind ?_
  dsimp only
  refine .lift_bind fun _ _ => .lift_bind fun _ _ => .ite (fun hcheck => ?_) fun _ => .ret _
  refine .lift_bind fun oldDigest _ => .lift_bind fun generation hgeneration => ?_
  refine .lift_bind fun ⟨incarnation, main⟩ htake => ?_
  refine .write_bind (.accept (invalidate_within hcheck.2.1)) ?_
  refine .write_bind (.shrink ?_) (.ret _)
  have hmoved : main.Within files.main := by
    refine (State.takeSequence_within htake).trans ?_
    exact .of_eq (recoveredGeneration_ok hgeneration) (Nat.le_refl _) rfl rfl
  refine (State.compactTombstones_within _).trans (State.Within.trans ?_ hmoved)
  refine .insert (Nat.le_refl _) (Nat.le_refl _) (fun _ _ h => lookup_of_filter h) rfl ?_
  intro digest target h
  cases h

/-! ## Ends of sessions -/

theorem readAcceptance_ok
    (h : readAcceptance files = .ok acceptance) : acceptance = files.acceptance := by
  unfold readAcceptance at h
  rw [ensure_bind_ok] at h
  cases h.2
  rfl

theorem releaseAcceptance_writes (key capabilityDigest : String) :
    Writes (Change strict) files (releaseAcceptance key capabilityDigest) := by
  unfold releaseAcceptance
  refine .load_bind (.lift_bind fun acceptance hread => ?_)
  refine .ite (fun _ => .write (.accept ?_)) fun _ => .ret _
  rw [readAcceptance_ok hread]
  refine ⟨Nat.le_refl _, fun key' operation hlookup => ?_,
    fun key' operation hlookup hkind _ _ => ?_, fun key' session h => .refl h⟩
  · refine OldOperation.ended rfl (fun _ old _ hp => ?_) (by simp) hlookup
    simp only [Bool.and_eq_true, decide_eq_true_eq, Option.isNone_iff_eq_none] at hp
    simp [hp]
  · exact reserved_of_ended rfl hlookup (by simp [hkind])

theorem State.removeSession_within {main' : State}
    (h : main.removeSession host key digest = .ok main') : main'.Within main := by
  unfold State.removeSession at h
  rw [bind_eq_ok] at h
  obtain ⟨⟨sequence, taken⟩, htake, h⟩ := h
  cases h
  have htaken := State.takeSequence_within htake
  refine (State.compactTombstones_within _).trans (State.Within.trans ?_ (htaken.trans ?_))
  · exact .of_eq (Nat.le_refl _) (Nat.le_refl _) rfl rfl
  refine ⟨Nat.le_refl _, Nat.le_refl _, fun _ _ h => lookup_of_filter h, ?_⟩
  refine targets_of_sessions fun key' session hsession => ?_
  by_cases hkey : key' = key
  · subst hkey
    rw [AList.lookup_erase] at hsession
    cases hsession
  · rw [AList.lookup_erase_ne hkey] at hsession
    exact ⟨session, hsession, fun _ _ h => h⟩

theorem release_writes :
    Writes (Change strict) files (release host authentic identity capability) := by
  unfold release
  refine .load_bind ?_
  refine .ite (fun _ => releaseAcceptance_writes _ _) fun _ => ?_
  refine .lift_bind fun _ _ => .lift_bind fun _ _ => .lift_bind fun _ _ => ?_
  refine .lift_bind fun main hmain => ?_
  exact .write_bind (.shrink (State.removeSession_within host hmain)) (releaseAcceptance_writes _ _)

theorem reclaimScan_writes (now : Nat) :
    Writes (Change strict) files (reclaimScan now) := by
  unfold reclaimScan
  refine .load_bind ?_
  exact .write_bind (.shrink (.of_eq (Nat.le_refl _) (Nat.le_refl _) rfl rfl)) (.ret _)

theorem reclaimCommit_writes (now : Nat) (candidate : OrphanCandidate) :
    Writes (Change strict) files (reclaimCommit host now candidate) := by
  unfold reclaimCommit
  refine .load_bind ?_
  refine .ite (fun _ => ?_) fun _ => .ret _
  refine .lift_bind fun main hmain => ?_
  exact .write_bind (.shrink (State.removeSession_within host hmain)) (.ret _)

/-! ## Completion reservations of capabilities that are gone -/

theorem terminalizeInactive_within (files : Files) : (terminalizeInactive files).Within files where
  nextSequence := Nat.le_refl _
  operations key operation hlookup := by
    refine OldOperation.ended rfl (fun _ old _ hp => ?_) (by simp) hlookup
    unfold orphanedCompletion at hp
    simp only [Bool.and_eq_true, decide_eq_true_eq, Option.isNone_iff_eq_none] at hp
    simp [hp]
  reserved key operation hlookup hkind _ _ :=
    reserved_of_ended rfl hlookup (by simp [orphanedCompletion, hkind])
  sessions _ _ h := .refl h

theorem terminalizeOrphans_writes : Writes (Change strict) files terminalizeOrphans := by
  unfold terminalizeOrphans
  refine .load_bind (.ite (fun _ => ?_) fun _ => .ret _)
  exact Change.saveAcceptance (terminalizeInactive_within files)

structure Settled (files : Files) (acceptance : AcceptanceState) : Prop where
  within : acceptance.Within files
  sessions : acceptance.sessions = files.acceptance.sessions
  closed : ∀ operation ∈ acceptance.operations.values,
    orphanedCompletion files.main operation = false

theorem terminalizeOrphans_result (files : Files) :
    terminalizeOrphans.result files = .ok () := by
  unfold terminalizeOrphans Durable.result
  rw [Durable.load_bind_apply]
  split <;> rfl

theorem terminalizeOrphans_after (files : Files) : ∃ acceptance : AcceptanceState,
    terminalizeOrphans.after files = { files with acceptance } ∧ Settled files acceptance := by
  have hrun : terminalizeOrphans.after files =
      if files.acceptance.operations.values.any (orphanedCompletion files.main) then
        { files with acceptance := terminalizeInactive files }
      else files := by
    unfold terminalizeOrphans Durable.after
    rw [Durable.load_bind_apply]
    split <;> rfl
  rw [hrun]
  split
  · refine ⟨_, rfl, terminalizeInactive_within files, rfl, fun operation hmem => ?_⟩
    obtain ⟨key, hlookup⟩ := Table.mem_values_iff.mp hmem
    unfold terminalizeInactive at hlookup
    rw [Table.lookup_mapVal, Option.map_eq_some_iff] at hlookup
    obtain ⟨old, -, rfl⟩ := hlookup
    split
    · simp [orphanedCompletion]
    · simp_all
  · rename_i hnone
    refine ⟨files.acceptance, rfl, .refl files, rfl, fun operation hmem => ?_⟩
    rw [Bool.not_eq_true, List.any_eq_false] at hnone
    simpa using hnone operation hmem

theorem Settled.noCompletion (h : Settled files acceptance)
    (hlive : completionReserved { files with acceptance } = false) : NoCompletion acceptance := by
  intro key operation hlookup hkind hterminal
  have hmem := Table.mem_values_iff.mpr ⟨key, hlookup⟩
  have horphaned := h.closed operation hmem
  unfold completionReserved at hlive
  rw [List.any_eq_false] at hlive
  have hnot := hlive operation hmem
  unfold orphanedCompletion at horphaned
  simp_all

theorem terminalizeOrphans_bind {rest : Unit → Locked α}
    (h : ∀ acceptance, Settled files acceptance →
      Writes (Change strict) { files with acceptance } (rest ())) :
    Writes (Change strict) files (terminalizeOrphans >>= rest) := by
  obtain ⟨acceptance, hafter, hsettled⟩ := terminalizeOrphans_after files
  refine .bind terminalizeOrphans_writes fun _ _ => ?_
  rw [hafter]
  exact h acceptance hsettled

/-- Behind this check no completion reserves the repository. -/
theorem ensureNotReserved_bind {rest : Unit → Locked α}
    (h : ∀ acceptance, Settled files acceptance → NoCompletion acceptance →
      Writes (Change strict) { files with acceptance } (rest ())) :
    Writes (Change strict) files (ensureNotReserved >>= rest) := by
  obtain ⟨acceptance, hafter, hsettled⟩ := terminalizeOrphans_after files
  have hrest := Durable.bind_of_result (f := fun _ => do
    let files ← Durable.load
    Durable.lift (ensure (¬ completionReserved files)
      (hookError "finish-line-completion-reserved"
        "the repository is reserved by an authoritative completion")))
    (terminalizeOrphans_result files)
  rw [hafter] at hrest
  refine .bind (.bind terminalizeOrphans_writes fun _ _ => .load_bind (.lift _)) fun u hu => ?_
  unfold ensureNotReserved at hu ⊢
  rw [hrest.1] at hu
  rw [hrest.2]
  have hnot := ensure_eq_ok.mp hu
  exact h acceptance hsettled (hsettled.noCompletion (by simpa using hnot))

/-! ## Edits, validation runs and shell commands -/

theorem mem_oldestKeys {sequence : ν → Nat} {selected : ν → Bool}
    {table : Table String ν} (h : key ∈ oldestKeys sequence selected count table) :
    ∃ v, table.lookup key = some v ∧ selected v := by
  unfold oldestKeys at h
  obtain ⟨pair, hpair, rfl⟩ := List.mem_map.mp h
  have hmem := mem_sortBy.mp (List.mem_of_mem_take hpair)
  obtain ⟨row, hrow, rfl⟩ := List.mem_map.mp hmem
  rw [List.mem_filter] at hrow
  exact ⟨row.2, Table.lookup_eq_some_iff.mpr hrow.1, hrow.2⟩

/-- A row that is not selected is not dropped. -/
theorem lookup_of_not_selected {sequence : ν → Nat} {selected : ν → Bool}
    {table : Table String ν} {v : ν} (h : table.lookup key = some v) (hv : selected v = false) :
    (table.filter fun key _ => key ∉ oldestKeys sequence selected count table).lookup key =
      some v := by
  rw [Table.lookup_filter, h, Option.filter_some, if_pos]
  rw [decide_eq_true_eq]
  intro hmem
  obtain ⟨w, hw, hselected⟩ := mem_oldestKeys hmem
  cases h.symm.trans hw
  simp [hv] at hselected

theorem State.compact_keeps
    (h : main.operations.lookup key = some operation) (hterminal : operation.terminal = none) :
    main.compact.operations.lookup key = some operation := by
  unfold State.compact
  dsimp only
  split
  · exact h
  · exact lookup_of_not_selected h
      (by simp [hterminal])

theorem State.shellActive_of_compact (h : main.compact.shellActive = false) :
    main.shellActive = false := by
  unfold State.shellActive at h ⊢
  rw [List.any_eq_false] at h ⊢
  intro operation hmem
  obtain ⟨key, hlookup⟩ := Table.mem_values_iff.mp hmem
  intro hactive
  rw [Bool.and_eq_true, Option.isNone_iff_eq_none] at hactive
  refine h operation (Table.mem_values_iff.mpr ⟨key, State.compact_keeps hlookup hactive.2⟩) ?_
  simp [hactive]

theorem State.compact_generation (main : State) : main.compact.generation = main.generation := by
  unfold State.compact
  dsimp only
  split <;> rfl

theorem State.sessionOr_targets (h : (main.sessionOr key).targets.lookup digest = some target) :
    main.target key digest = some target := by
  unfold State.sessionOr at h
  unfold State.target
  cases hsession : main.sessions.lookup key with
  | none =>
    rw [hsession] at h
    cases h
  | some session =>
    rw [hsession] at h
    exact h

theorem State.Adds.of_insert {main₀ : State}
    (hoperations : main.operations = taken.operations.insert key record)
    (hwithin : ∀ key operation, taken.operations.lookup key = some operation →
      main₀.operations.lookup key = some operation)
    (hfresh : main₀.nextSequence < record.sequence)
    (hnext : record.sequence ≤ main.nextSequence) : main.Adds main₀ key record where
  fresh := hfresh
  nextSequence := hnext
  added := by rw [hoperations, AList.lookup_insert]
  operations key' operation hlookup := by
    rw [hoperations] at hlookup
    by_cases hkey : key' = key
    · subst hkey
      rw [AList.lookup_insert] at hlookup
      exact .inl ⟨rfl, (Option.some.inj hlookup).symm⟩
    · rw [AList.lookup_insert_ne hkey] at hlookup
      exact .inr (hwithin key' operation hlookup)

theorem ensureNoMutation_ok
    (h : ensureNoMutation acceptance main.compact = .ok u) : NoMutation ⟨main, acceptance⟩ := by
  have hnot := ensure_eq_ok.mp h
  rw [not_or, Bool.not_eq_true, Bool.not_eq_true] at hnot
  exact ⟨hnot.1, State.shellActive_of_compact hnot.2⟩

theorem moved {sequence : Nat} {exhausted : HookError} (key operationKey : String)
    (contractDigest : Option String)
    (hgeneration : checkedSucc main.compact.generation exhausted = .ok generation)
    (htake : ({ main.compact with generation }).compactSessions.takeSequence =
      .ok (sequence, taken)) (hrecord : record.sequence = sequence) :
    let main' : State := { taken with
      sessions := taken.sessions.insert key (taken.sessionOr key)
      operations := taken.operations.insert operationKey record
      contractDigest }
    main'.generation = main.generation + 1 ∧ main'.generation = generation ∧
      main'.Adds main operationKey record ∧ main'.TargetsWithin main := by
  have hnext := checkedSucc_ok hgeneration
  rw [State.compact_generation] at hnext
  have hcompact : ({ main.compact with generation } : State).Within main := by
    have hold := main.compact_within
    exact ⟨by rw [hnext]; exact Nat.le_succ _, hold.nextSequence, hold.operations, hold.targets⟩
  have hbefore := ({ main.compact with generation } : State).compactSessions_within.trans hcompact
  have hwithin := (State.takeSequence_within htake).trans hbefore
  obtain ⟨hsequence, htaken⟩ := State.takeSequence_ok htake
  have hfresh := hbefore.nextSequence
  intro main'
  have htakenGeneration : taken.generation = generation := by
    rw [htaken]
    rfl
  have htakenNext : taken.nextSequence = sequence := by rw [htaken]
  refine ⟨htakenGeneration.trans hnext, htakenGeneration, ?_, ?_⟩
  · refine .of_insert rfl hwithin.operations ?_ ?_
    · rw [hrecord, hsequence]
      exact Nat.lt_succ_of_le hfresh
    · exact (hrecord.trans htakenNext.symm).le
  · have hsessions : ({ taken with
        sessions := taken.sessions.insert key (taken.sessionOr key) } : State).Within taken :=
      State.within_insert fun digest target h => State.sessionOr_targets h
    exact (hsessions.trans hwithin).targets

/-- A call that registers an edit or a shell command has moved to the next generation. -/
theorem Change.of_moved {sequence : Nat} {operationKey : String} {exhausted : HookError}
    (hcompletion : NoCompletion acceptance)
    (hidle : ensureNoMutation acceptance main.compact = .ok u)
    (hgeneration : checkedSucc main.compact.generation exhausted = .ok generation)
    (htake : ({ main.compact with generation }).compactSessions.takeSequence =
      .ok (sequence, taken)) (hsequence : record.sequence = sequence)
    (hrecord : record.generation = generation)
    (hkind : record.kind = .edit ∧ record.terminal ≠ none ∨
      record.kind = .shell ∧ record.terminal = none) :
    Change strict ⟨main, acceptance⟩ ⟨{ taken with
      sessions := taken.sessions.insert key (taken.sessionOr key)
      operations := taken.operations.insert operationKey record
      contractDigest }, acceptance⟩ := by
  have hmoved := moved key operationKey contractDigest hgeneration htake hsequence
  have hactive := ensureNoMutation_ok hidle
  rcases hkind with ⟨hkind, hterminal⟩ | ⟨hkind, hterminal⟩
  · exact .edit hactive hcompletion hmoved.1 hmoved.2.2.1
      hmoved.2.2.2 hkind hterminal
  · exact .shell hactive hcompletion hmoved.1 hmoved.2.2.1
      hmoved.2.2.2 hkind hterminal (hrecord.trans hmoved.2.1.symm)

theorem beginEdit_writes (attemptToken : String) (snapshot : ContractSnapshot) :
    Writes (Change strict) files
      (beginEdit host authentic identity operationId attemptToken snapshot) := by
  unfold beginEdit
  refine .load_bind ?_
  dsimp only
  refine .lift_bind fun _ _ => ?_
  split
  · refine .ite (fun _ => ?_) fun _ => .lift _
    exact .write_bind (.shrink (.refl _)) (.ret _)
  · refine .lift_bind fun _ _ => .lift_bind fun _ _ => ?_
    refine ensureNotReserved_bind fun acceptance hsettled hcompletion => ?_
    refine .load_bind (.lift_bind fun _ hidle => ?_)
    refine .lift_bind fun generation hgeneration => ?_
    refine .lift_bind fun ⟨sequence, taken⟩ htake => ?_
    refine .write_bind ?_ (.ret _)
    exact .of_moved hcompletion hidle hgeneration htake rfl rfl (.inl ⟨rfl, by simp⟩)

/-! ### Shell commands -/

theorem reserveShell_writes (shellDigest unit : String) (snapshot : ContractSnapshot) :
    Writes (Change strict) files
      (reserveShell host authentic identity capability operationId shellDigest unit snapshot) := by
  unfold reserveShell
  refine .load_bind ?_
  dsimp only
  refine .lift_bind fun _ _ => ?_
  split
  · refine .ite (fun _ => ?_) fun _ => .lift _
    exact .write_bind (.shrink (.refl _)) (.ret _)
  · refine .lift_bind fun _ _ => .lift_bind fun _ _ => ?_
    refine ensureNotReserved_bind fun acceptance hsettled hcompletion => ?_
    refine .load_bind (.lift_bind fun _ hidle => ?_)
    refine .lift_bind fun generation hgeneration => ?_
    refine .lift_bind fun ⟨sequence, taken⟩ htake => ?_
    refine .write_bind ?_ (.ret _)
    exact .of_moved hcompletion hidle hgeneration htake rfl rfl (.inr ⟨rfl, rfl⟩)

theorem requireCurrent_ok {reservation : Reservation}
    (h : requireCurrent main reservation = .ok operation) :
    main.operations.lookup reservation.operationKey = some operation ∧
      operation.terminal = none ∧ operation.sessionKey = reservation.record.sessionKey ∧
      operation.generation = reservation.record.generation ∧
      operation.sequence = reservation.record.sequence ∧
      operation.kind = reservation.record.kind ∧
      operation.targetDigest = reservation.record.targetDigest ∧
      operation.contractDigest = reservation.record.contractDigest := by
  unfold requireCurrent at h
  rw [orErr_bind_ok] at h
  obtain ⟨found, hfound, h⟩ := h
  rw [ensure_bind_ok] at h
  obtain ⟨⟨hsession, -, -, hgeneration, hsequence, hkind, htarget, hcontract, -, hterminal⟩, h⟩ := h
  cases h
  exact ⟨hfound, hterminal, hsession, hgeneration, hsequence, hkind, htarget, hcontract⟩

theorem lookup_insert_cases {table : Table String ν} {v w : ν}
    (h : (table.insert key v).lookup key' = some w) :
    key' = key ∧ w = v ∨ key' ≠ key ∧ table.lookup key' = some w := by
  by_cases hkey : key' = key
  · subst hkey
    rw [AList.lookup_insert] at h
    exact .inl ⟨rfl, (Option.some.inj h).symm⟩
  · rw [AList.lookup_insert_ne hkey] at h
    exact .inr ⟨hkey, h⟩

theorem completeShell_writes (reservation : Reservation) (execution : StoredExecution)
    (snapshot : ContractSnapshot) :
    Writes (Change strict) files (completeShell reservation execution snapshot) := by
  unfold completeShell
  refine .load_bind (.lift_bind fun operation hcurrent => .write ?_)
  obtain ⟨hlookup, hterminal, -⟩ := requireCurrent_ok hcurrent
  exact .complete hlookup hterminal rfl rfl (fun _ _ h => lookup_insert_cases h)
    (fun _ _ _ h => .inl h) (AList.lookup_insert _)

/-! ### Validation runs -/

theorem target_of_insert {digest' : String} {new : TargetState}
    (hsession : ∀ digest target, session.targets.lookup digest = some target →
      main.target key digest = some target)
    (h : ({ main with
      sessions := main.sessions.insert key
        { session with targets := session.targets.insert digest new } } : State).target key' digest' =
      some target) :
    main.target key' digest' = some target ∨ key' = key ∧ digest' = digest ∧ target = new := by
  unfold State.target at h
  rw [Option.bind_eq_some_iff] at h
  obtain ⟨found, hfound, htarget⟩ := h
  rcases lookup_insert_cases hfound with ⟨rfl, rfl⟩ | ⟨-, hold⟩
  · rcases lookup_insert_cases htarget with ⟨rfl, rfl⟩ | ⟨-, hold⟩
    · exact .inr ⟨rfl, rfl, rfl⟩
    · exact .inl (hsession digest' target hold)
  · exact .inl (State.target_of_session hold digest' target htarget)

/-- A validation run is registered in the generation that it validates. -/
theorem reserveValidation_writes (target : ValidationTarget) (unit : String)
    (snapshot : ContractSnapshot) (hstrict : strict → files.main.shellActive = false) :
    Writes (Change strict) files
      (reserveValidation host authentic identity capability operationId target unit snapshot) := by
  unfold reserveValidation
  refine .load_bind ?_
  dsimp only
  refine .lift_bind fun _ _ => ?_
  split
  · refine .ite (fun _ => ?_) fun _ => .lift _
    exact .write_bind (.shrink (.refl _)) (.ret _)
  · refine .lift_bind fun _ _ => .lift_bind fun acceptance hread => .lift_bind fun _ hidle => ?_
    refine .lift_bind fun ⟨sequence, taken⟩ htake => .lift_bind fun _ _ => ?_
    refine .write_bind ?_ (.ret _)
    have hmutation := ensure_eq_ok.mp hidle
    rw [readAcceptance_ok hread, Bool.not_eq_true] at hmutation
    have hbefore := files.main.compact.compactSessions_within.trans files.main.compact_within
    have hwithin := (State.takeSequence_within htake).trans hbefore
    obtain ⟨hsequence, htaken⟩ := State.takeSequence_ok htake
    have hgeneration : taken.generation = files.main.generation := by
      rw [htaken]
      exact files.main.compact_generation
    refine .validation hmutation hstrict hgeneration (.of_insert rfl hwithin.operations ?_ ?_) rfl rfl
      rfl fun key digest state h => ?_
    · show files.main.nextSequence < sequence
      rw [hsequence]
      exact Nat.lt_succ_of_le hbefore.nextSequence
    · show sequence ≤ taken.nextSequence
      rw [htaken]
    · rcases target_of_insert (fun _ _ => State.sessionOr_targets) h with hold | ⟨rfl, rfl, rfl⟩
      · exact .inl (hwithin.targets key digest state hold)
      · exact .inr ⟨rfl, rfl, rfl, rfl, rfl, rfl⟩

theorem outcome_success {code : Nat} (h : execution.outcome = .success code) : execution.clean := by
  unfold StoredExecution.outcome at h
  split at h
  · assumption
  · cases h

theorem settleTarget_targets {contractCurrent : Bool} {operations : Table String OperationRecord}
    (hsession : ∀ digest target, session.targets.lookup digest = some target →
      main.target key digest = some target)
    (h : ({ main with
      sessions := main.sessions.insert key
        (settleTarget main session record execution.outcome contractCurrent).2
      operations
      contractDigest } : State).target key' digest = some target) :
    main.target key' digest = some target ∨ ∃ old, main.target key' digest = some old ∧
      record.generation = main.generation ∧ old.generation = record.generation ∧
      old.attemptSequence = record.sequence ∧ (∃ status, target = { old with status }) ∧
      (target.status = .success → execution.clean) := by
  unfold State.target at h
  rw [Option.bind_eq_some_iff] at h
  obtain ⟨found, hfound, htarget⟩ := h
  rcases lookup_insert_cases hfound with ⟨rfl, rfl⟩ | ⟨-, hold⟩
  · unfold settleTarget at htarget
    dsimp only at htarget
    split at htarget
    · exact .inl (hsession digest target htarget)
    · rename_i hcurrent
      rw [not_or, not_not] at hcurrent
      split at htarget
      · rename_i state hstate
        split at htarget
        · rename_i hsame
          rcases lookup_insert_cases htarget with ⟨rfl, rfl⟩ | ⟨-, hold⟩
          · refine .inr ⟨state, hsession _ state hstate, hcurrent.1, hsame.1, hsame.2, ⟨_, rfl⟩,
              fun hstatus => ?_⟩
            dsimp only at hstatus
            split at hstatus
            · exact outcome_success ‹_›
            · cases hstatus
          · exact .inl (hsession digest target hold)
        · exact .inl (hsession digest target htarget)
      · exact .inl (hsession digest target htarget)
  · exact .inl (State.target_of_session hold digest target htarget)

/-- The run ends and settles its target in one write. -/
theorem completeValidation_writes (reservation : Reservation) (execution : StoredExecution)
    (snapshot : ContractSnapshot) (hkind : reservation.record.kind = .validation) :
    Writes (Change strict) files
      (completeValidation reservation execution snapshot) := by
  unfold completeValidation
  refine .load_bind (.lift_bind fun operation hcurrent => ?_)
  dsimp only
  refine .write_bind ?_ (.ret _)
  obtain ⟨hlookup, hterminal, -, hgeneration, hsequence, hoperationKind, -⟩ :=
    requireCurrent_ok hcurrent
  refine .complete hlookup hterminal rfl rfl (fun _ _ h => lookup_insert_cases h)
    (fun key digest target h => ?_) (AList.lookup_insert _)
  split at h
  · rcases settleTarget_targets (fun _ _ => State.sessionOr_targets) h with hold | ⟨old, hold, hcase⟩
    · exact .inl hold
    · obtain ⟨hcurrent, hsame, hattempt, hstatus, hclean⟩ := hcase
      refine .inr ⟨old, hold, hoperationKind.trans hkind, hgeneration.trans hcurrent,
        hsame.trans hgeneration.symm, hattempt.trans hsequence.symm, hstatus, hclean⟩
  · exact .inl h

end NilsCli.FinishLine
