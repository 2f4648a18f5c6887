import NilsCli.FinishLine.System

/-!
# Who owns a session

A session gets its capability, with its incarnation and its owner, in one write and keeps all three
until the session ends or gets another capability.
-/

namespace NilsCli.FinishLine

open Lib
open Durable (Keeps)

variable {high sequence : Nat} {digest : String} {taken : State} {α : Type} {files : Files}

variable (host : Host) (valid : OwnerProcess → Prop)

variable (reservation : Reservation) (authentic : OwnerProcess → Bool)
  (identity : RequestIdentity)

def SessionState.ownership (session : SessionState) :
    Option OwnerProcess × Option String × Option Nat :=
  (session.ownerProcess, session.runnerCapabilityDigest, session.runnerCapabilityIncarnation)

/-- The digest of a capability. -/
def Host.capability (key attemptToken : String) (incarnation : Nat) : String :=
  host.runnerCapabilityDigest key (host.openRunnerCapability key attemptToken (some incarnation))

inductive SessionState.Follows (main₀ : State) (high : Nat) (key : String)
    (session : SessionState) : Prop
  | kept {old : SessionState} (hold : main₀.sessions.lookup key = some old)
      (h : session.ownership = old.ownership)
  | unbound (h : session.ownership = (none, none, none))
  | granted {owner : Option OwnerProcess} {attemptToken : String} {incarnation : Nat}
      (hlow : main₀.nextSequence < incarnation) (hhigh : incarnation ≤ high)
      (h : session.ownership =
        (owner, some (host.capability key attemptToken incarnation), some incarnation))
      (hvalid : ∀ process ∈ owner, valid process)

/-- The main file is a later one. -/
structure State.Evolves (main main₀ : State) : Prop where
  nextSequence : main₀.nextSequence ≤ main.nextSequence
  size : main.sessions.size ≤ max main₀.sessions.size maxSessions
  sessions : ∀ key session, main.sessions.lookup key = some session →
    session.Follows host valid main₀ main.nextSequence key

section
variable {host valid} {main main' main₀ : State} {key : String} {session : SessionState}

theorem SessionState.Follows.congr {high' : Nat} {session' : SessionState}
    (h : session.Follows host valid main₀ high key) (hhigh : high ≤ high')
    (hsession : session'.ownership = session.ownership) :
    session'.Follows host valid main₀ high' key := by
  cases h with
  | kept hold h => exact .kept hold (hsession.trans h)
  | unbound h => exact .unbound (hsession.trans h)
  | granted hlow hle h hvalid => exact .granted hlow (hle.trans hhigh) (hsession.trans h) hvalid

theorem SessionState.Follows.trans (h : session.Follows host valid main' high key)
    (h' : main'.Evolves host valid main₀) (hhigh : main'.nextSequence ≤ high) :
    session.Follows host valid main₀ high key := by
  cases h with
  | kept hold h => exact (h'.sessions key _ hold).congr hhigh h
  | unbound h => exact .unbound h
  | granted hlow hle h hvalid => exact .granted (h'.nextSequence.trans_lt hlow) hle h hvalid

theorem State.Evolves.refl (main : State) : main.Evolves host valid main :=
  ⟨le_rfl, le_max_left _ _, fun _ _ h => .kept h rfl⟩

theorem State.Evolves.trans (h : main.Evolves host valid main')
    (h' : main'.Evolves host valid main₀) : main.Evolves host valid main₀ where
  nextSequence := h'.nextSequence.trans h.nextSequence
  size := by
    have hsize := h.size
    have hsize' := h'.size
    omega
  sessions key session hlookup := (h.sessions key session hlookup).trans h' h.nextSequence

theorem State.Evolves.ownership_eq
    (hdistinct : ∀ key attemptToken incarnation key' attemptToken' incarnation',
      host.capability key attemptToken incarnation =
        host.capability key' attemptToken' incarnation' → key = key' ∧ incarnation = incarnation')
    (h : main.Evolves host valid main₀) (h₀ : main₀.Evolves host valid .new)
    {session₀ : SessionState}
    (hsession : main.sessions.lookup key = some session)
    (hsession₀ : main₀.sessions.lookup key = some session₀)
    (hdigest : session.runnerCapabilityDigest = some digest)
    (hdigest₀ : session₀.runnerCapabilityDigest = some digest) :
    session.ownership = session₀.ownership := by
  cases h.sessions key session hsession with
  | kept hold h =>
    cases hold.symm.trans hsession₀
    exact h
  | unbound h =>
    cases hdigest.symm.trans (congrArg (·.2.1) h)
  | granted hlow _ h _ =>
    have hnew := Option.some.inj (hdigest.symm.trans (congrArg (·.2.1) h))
    cases h₀.sessions key session₀ hsession₀ with
    | kept hold _ => cases hold
    | unbound h => cases hdigest₀.symm.trans (congrArg (·.2.1) h)
    | granted _ hhigh₀ h₀ _ =>
      -- the older incarnation is within the sequence that the newer one is beyond
      have hold := Option.some.inj (hdigest₀.symm.trans (congrArg (·.2.1) h₀))
      have hsame := hdistinct _ _ _ _ _ _ (hold.symm.trans hnew)
      omega

/-! ## Steps -/

theorem State.Evolves.of_sessions (hsequence : main₀.nextSequence ≤ main.nextSequence)
    (hsessions : main.sessions = main₀.sessions) : main.Evolves host valid main₀ where
  nextSequence := hsequence
  size := by
    rw [hsessions]
    exact le_max_left _ _
  sessions key session h := .kept (hsessions ▸ h) rfl

theorem State.Evolves.of_kept (hsequence : main₀.nextSequence ≤ main.nextSequence)
    (h : ∀ key session, main.sessions.lookup key = some session → ∃ old,
      main₀.sessions.lookup key = some old ∧ session.ownership = old.ownership) :
    main.Evolves host valid main₀ where
  nextSequence := hsequence
  size := by
    refine le_max_of_le_left (Table.size_le_of_keys fun key hkey => ?_)
    obtain ⟨session, hsession⟩ := Option.isSome_iff_exists.mp hkey
    obtain ⟨old, hold, -⟩ := h key session hsession
    exact Option.isSome_iff_exists.mpr ⟨old, hold⟩
  sessions key session hsession := by
    obtain ⟨old, hold, hownership⟩ := h key session hsession
    exact .kept hold hownership

theorem State.compactSessions_kept (h : main.compactSessions.sessions.lookup key = some session) :
    ∃ old, main.sessions.lookup key = some old ∧ session.ownership = old.ownership := by
  have hmap := lookup_of_filter h
  rw [Table.lookup_mapVal, Option.map_eq_some_iff] at hmap
  obtain ⟨old, hold, rfl⟩ := hmap
  exact ⟨old, hold, rfl⟩

theorem State.compactSessions_evolves (main : State) :
    main.compactSessions.Evolves host valid main :=
  .of_kept le_rfl fun _ _ h => State.compactSessions_kept h

theorem State.compact_evolves (main : State) : main.compact.Evolves host valid main := by
  unfold State.compact
  dsimp only
  split
  · exact main.compactSessions_evolves
  · refine State.Evolves.trans ?_ main.compactSessions_evolves
    exact .of_sessions (Nat.le_refl _) rfl

theorem State.compactTombstones_evolves (main : State) :
    main.compactTombstones.Evolves host valid main := by
  unfold State.compactTombstones
  split
  · exact .refl main
  · exact .of_sessions (Nat.le_refl _) rfl

theorem State.takeSequence_evolves
    (h : main.takeSequence = .ok (sequence, main')) : main'.Evolves host valid main := by
  obtain ⟨rfl, rfl⟩ := State.takeSequence_ok h
  exact .of_sessions (Nat.le_succ _) rfl

/-- One session changes. -/
theorem State.Evolves.insert (h : taken.Evolves host valid main₀)
    (hnext : taken.nextSequence ≤ main.nextSequence)
    (hsessions : main.sessions = taken.sessions.insert key session)
    (hkeys : ∀ key', (taken.sessions.lookup key').isSome → (main₀.sessions.lookup key').isSome)
    (hroom : main₀.sessions.size < maxSessions ∨ (main₀.sessions.lookup key).isSome)
    (hsession : session.Follows host valid main₀ main.nextSequence key) :
    main.Evolves host valid main₀ where
  nextSequence := h.nextSequence.trans hnext
  size := by
    rw [hsessions]
    rcases hroom with hroom | hroom
    · have hinsert := Table.size_insert_le taken.sessions key session
      have htaken := Table.size_le_of_keys hkeys
      refine le_max_of_le_right (hinsert.trans ?_)
      exact (Nat.succ_le_succ htaken).trans hroom
    · refine le_max_of_le_left (Table.size_le_of_keys fun key' hkey' => ?_)
      by_cases hkey : key' = key
      · exact hkey ▸ hroom
      · rw [AList.lookup_insert_ne hkey] at hkey'
        exact hkeys key' hkey'
  sessions key' session' hlookup := by
    rw [hsessions] at hlookup
    rcases lookup_insert_cases hlookup with ⟨rfl, rfl⟩ | ⟨-, hlookup⟩
    · exact hsession
    · exact (h.sessions key' session' hlookup).congr hnext rfl

theorem State.removeSession_evolves
    (h : main.removeSession host key digest = .ok main') : main'.Evolves host valid main := by
  unfold State.removeSession at h
  rw [bind_eq_ok] at h
  obtain ⟨⟨sequence, taken⟩, htake, h⟩ := h
  cases h
  refine (State.compactTombstones_evolves _).trans
    (State.Evolves.trans ?_ ((State.takeSequence_evolves htake).trans ?_))
  · exact .of_sessions (Nat.le_refl _) rfl
  refine .of_kept (Nat.le_refl _) fun key' session hsession => ⟨session, ?_, rfl⟩
  by_cases hkey : key' = key
  · subst hkey
    rw [AList.lookup_erase] at hsession
    cases hsession
  · rwa [AList.lookup_erase_ne hkey] at hsession

/-- The session of a key, or a new one, follows. -/
theorem State.sessionOr_follows (main : State) (key : String)
    (hsession : session.ownership = (main.sessionOr key).ownership) :
    session.Follows host valid main high key := by
  unfold State.sessionOr at hsession
  cases hlookup : main.sessions.lookup key with
  | none =>
    rw [hlookup] at hsession
    exact .unbound hsession
  | some old =>
    rw [hlookup] at hsession
    exact .kept hlookup hsession

end

/-! ## Calls -/

def Evolving (main₀ : State) (files : Files) : Prop := files.main.Evolves host valid main₀

section
variable {host valid} {main₀ : State}

theorem load_evolves {f : Files → Locked α} (h : ∀ files, files.main.Evolves host valid main₀ →
      Keeps (Evolving host valid main₀) (f files)) :
    Keeps (Evolving host valid main₀) (Durable.load >>= f) :=
  .load_bind fun files hfiles => (h files hfiles).at hfiles

theorem saveAcceptance_evolves (acceptance : AcceptanceState) :
    Keeps (Evolving host valid main₀) (saveAcceptance acceptance) := .write fun _ h => h

theorem saveMain_evolves {main : State} (h : main.Evolves host valid main₀) :
    Keeps (Evolving host valid main₀) (saveMain main) := .write fun _ _ => h

theorem SessionState.grant_follows {main : State} {key attemptToken : String}
    {session : SessionState} {incarnation leaseExpiresAt : Nat} {owner : Option OwnerProcess}
    (hlow : main.nextSequence < incarnation) (hhigh : incarnation ≤ high)
    (hvalid : ∀ process ∈ owner, valid process) :
    (session.grant host key attemptToken incarnation owner leaseExpiresAt).Follows host valid main
      high key := .granted hlow hhigh rfl hvalid

theorem openSession_evolves (attemptToken : String)
    {owner : Option OwnerProcess} (leaseExpiresAt : Nat)
    (hvalid : ∀ process ∈ owner, valid process) :
    Keeps (Evolving host valid main₀)
      (openSession host identity attemptToken owner leaseExpiresAt) := by
  unfold openSession
  refine load_evolves fun files hfiles => ?_
  dsimp only
  have hcompact := (State.compactSessions_evolves files.main).trans hfiles
  split
  · rename_i session hsession
    have hroom : (files.main.compactSessions.sessions.lookup identity.sessionKey).isSome := by
      rw [hsession]
      rfl
    split
    · refine .ite (.lift _) (.bind (saveMain_evolves (State.Evolves.trans ?_ hcompact)) fun _ =>
        .ret _)
      exact .insert (.refl _) le_rfl rfl (fun _ h => h) (.inr hroom) (.kept hsession rfl)
    · refine .lift_bind fun ⟨incarnation, main⟩ htake => ?_
      refine .bind (saveMain_evolves (State.Evolves.trans ?_ hcompact)) fun _ => .ret _
      obtain ⟨rfl, rfl⟩ := State.takeSequence_ok htake
      exact .insert (State.takeSequence_evolves htake) le_rfl rfl (fun _ h => h) (.inr hroom)
        (SessionState.grant_follows (Nat.lt_succ_self _) le_rfl hvalid)
  · refine .lift_bind fun _ hroom => .lift_bind fun ⟨incarnation, main⟩ htake => ?_
    refine .bind (saveMain_evolves (State.Evolves.trans ?_ hcompact)) fun _ => .ret _
    obtain ⟨rfl, rfl⟩ := State.takeSequence_ok htake
    exact .insert (State.takeSequence_evolves htake) le_rfl rfl (fun _ h => h)
      (.inl (ensure_eq_ok.mp hroom))
      (SessionState.grant_follows (Nat.lt_succ_self _) le_rfl hvalid)

theorem recoverCheck_evolves (dead : OwnerProcess → Bool) (identity : RequestIdentity) :
    Keeps (Evolving host valid main₀) (recoverCheck dead identity) := by
  unfold recoverCheck
  refine load_evolves fun files _ => ?_
  split
  · exact .lift_bind fun _ _ => .ite (.ret _) (.ret _)
  · exact .ret _

theorem recoverCommit_evolves (dead authentic : OwnerProcess → Bool) (quiet : Bool)
    (recovery : Recovery) (attemptToken : String) {newOwner : OwnerProcess} (leaseExpiresAt : Nat)
    (hvalid : valid newOwner) :
    Keeps (Evolving host valid main₀)
      (recoverCommit host dead authentic quiet recovery attemptToken newOwner leaseExpiresAt) := by
  unfold recoverCommit
  refine load_evolves fun files hfiles => ?_
  dsimp only
  refine .lift_bind fun _ _ => .lift_bind fun _ _ => ?_
  split
  · rename_i hcheck
    have hroom : (files.main.sessions.lookup recovery.identity.sessionKey).isSome := by
      have hsnapshot := hcheck.1
      unfold takeSnapshot at hsnapshot
      split at hsnapshot
      · rename_i hsession
        rw [hsession]
        rfl
      · cases hsnapshot
    refine .lift_bind fun _ _ => .lift_bind fun generation _ => ?_
    refine .lift_bind fun ⟨incarnation, main⟩ htake => ?_
    refine .bind (saveAcceptance_evolves _) fun _ => ?_
    refine .bind (saveMain_evolves ((State.compactTombstones_evolves _).trans
      (State.Evolves.trans ?_ hfiles))) fun _ => .ret _
    obtain ⟨rfl, rfl⟩ := State.takeSequence_ok htake
    refine .insert ((State.takeSequence_evolves htake).trans (.of_sessions (Nat.le_refl _) rfl))
      le_rfl rfl (fun _ h => h) (.inr hroom) ?_
    refine SessionState.grant_follows (Nat.lt_succ_self _) le_rfl fun process h => ?_
    rwa [← Option.some.inj h]
  · exact .ret _

theorem releaseAcceptance_evolves (key capabilityDigest : String) :
    Keeps (Evolving host valid main₀) (releaseAcceptance key capabilityDigest) := by
  unfold releaseAcceptance
  exact load_evolves fun _ _ => .lift_bind fun _ _ => .ite (saveAcceptance_evolves _) (.ret _)

theorem release_evolves (capability : String) :
    Keeps (Evolving host valid main₀) (release host authentic identity capability) := by
  unfold release
  refine load_evolves fun files hfiles => .ite (releaseAcceptance_evolves _ _) ?_
  refine .lift_bind fun _ _ => .lift_bind fun _ _ => .lift_bind fun _ _ => ?_
  refine .lift_bind fun main hmain => .bind (saveMain_evolves ?_) fun _ =>
    releaseAcceptance_evolves _ _
  exact (State.removeSession_evolves hmain).trans hfiles

theorem reclaimScan_evolves (now : Nat) :
    Keeps (Evolving host valid main₀) (reclaimScan now) := by
  unfold reclaimScan
  refine load_evolves fun files hfiles => .bind (saveMain_evolves ?_) fun _ => .ret _
  refine State.Evolves.trans ?_ hfiles
  exact .of_sessions (Nat.le_refl _) rfl

theorem reclaimCommit_evolves (now : Nat) (candidate : OrphanCandidate) :
    Keeps (Evolving host valid main₀) (reclaimCommit host now candidate) := by
  unfold reclaimCommit
  refine load_evolves fun files hfiles => .ite ?_ (.ret _)
  refine .lift_bind fun main hmain => .bind (saveMain_evolves ?_) fun _ => .ret _
  exact (State.removeSession_evolves hmain).trans hfiles

/-! ### Edits, validation runs and shell commands -/

theorem terminalizeOrphans_evolves :
    Keeps (Evolving host valid main₀) terminalizeOrphans := by
  unfold terminalizeOrphans
  exact load_evolves fun _ _ => .ite (saveAcceptance_evolves _) (.ret _)

theorem ensureNotReserved_evolves :
    Keeps (Evolving host valid main₀) ensureNotReserved :=
  .bind terminalizeOrphans_evolves fun _ => load_evolves fun _ _ => .lift _

theorem registered_evolves {main : State} {key : String} {session : SessionState}
    {operations : Table String OperationRecord} {contractDigest : Option String} {u : Unit}
    (hkept : ∀ key session, taken.sessions.lookup key = some session → ∃ old,
      main.sessions.lookup key = some old ∧ session.ownership = old.ownership)
    (hnext : main.nextSequence ≤ taken.nextSequence) (hroom : ensureCapacity main key = .ok u)
    (hsession : session.ownership = (taken.sessionOr key).ownership) :
    ({ taken with
      sessions := taken.sessions.insert key session, operations, contractDigest } : State).Evolves
        host valid main := by
  unfold ensureCapacity at hroom
  rw [ensure_bind_ok] at hroom
  have htaken : taken.Evolves host valid main := .of_kept hnext hkept
  refine .insert htaken le_rfl rfl (fun key' hkey' => ?_) (ensure_eq_ok.mp hroom.2) ?_
  · obtain ⟨session', hsession'⟩ := Option.isSome_iff_exists.mp hkey'
    obtain ⟨old, hold, -⟩ := hkept key' session' hsession'
    exact Option.isSome_iff_exists.mpr ⟨old, hold⟩
  · exact (taken.sessionOr_follows key hsession).trans htaken le_rfl

theorem moved_kept {main : State} {generation : Nat}
    (htake : ({ main with generation }).compactSessions.takeSequence = .ok (sequence, taken)) :
    (∀ key session, taken.sessions.lookup key = some session → ∃ old,
      main.sessions.lookup key = some old ∧ session.ownership = old.ownership) ∧
      main.nextSequence ≤ taken.nextSequence := by
  obtain ⟨rfl, rfl⟩ := State.takeSequence_ok htake
  refine ⟨fun key session h => ?_, Nat.le_succ _⟩
  obtain ⟨old, hold, hownership⟩ : ∃ old,
      ({ main with generation } : State).sessions.lookup key = some old ∧
        session.ownership = old.ownership := State.compactSessions_kept h
  exact ⟨old, hold, hownership⟩

theorem beginEdit_evolves (operationId attemptToken : String) (snapshot : ContractSnapshot) :
    Keeps (Evolving host valid main₀)
      (beginEdit host authentic identity operationId attemptToken snapshot) := by
  unfold beginEdit
  refine load_evolves fun files hfiles => .lift_bind fun _ _ => ?_
  split
  · exact .ite (.bind (saveMain_evolves hfiles) fun _ => .ret _) (.lift _)
  · refine .lift_bind fun _ hroom => .lift_bind fun _ _ => ?_
    refine .bind ensureNotReserved_evolves fun _ => load_evolves fun _ _ => ?_
    refine .lift_bind fun _ _ => .lift_bind fun generation _ => ?_
    refine .lift_bind fun ⟨sequence, taken⟩ htake => ?_
    refine .bind (saveMain_evolves ?_) fun _ => .ret _
    have hmoved := moved_kept htake
    exact (registered_evolves hmoved.1 hmoved.2 hroom rfl).trans
      ((State.compact_evolves _).trans hfiles)

theorem reserveShell_evolves
    (capability operationId shellDigest unit : String) (snapshot : ContractSnapshot) :
    Keeps (Evolving host valid main₀)
      (reserveShell host authentic identity capability operationId shellDigest unit snapshot) := by
  unfold reserveShell
  refine load_evolves fun files hfiles => .lift_bind fun _ _ => ?_
  split
  · exact .ite (.bind (saveMain_evolves hfiles) fun _ => .ret _) (.lift _)
  · refine .lift_bind fun _ hroom => .lift_bind fun _ _ => ?_
    refine .bind ensureNotReserved_evolves fun _ => load_evolves fun _ _ => ?_
    refine .lift_bind fun _ _ => .lift_bind fun generation _ => ?_
    refine .lift_bind fun ⟨sequence, taken⟩ htake => ?_
    refine .bind (saveMain_evolves ?_) fun _ => .ret _
    have hmoved := moved_kept htake
    exact (registered_evolves hmoved.1 hmoved.2 hroom rfl).trans
      ((State.compact_evolves _).trans hfiles)

theorem reserveValidation_evolves
    (capability operationId : String) (target : ValidationTarget) (unit : String)
    (snapshot : ContractSnapshot) :
    Keeps (Evolving host valid main₀)
      (reserveValidation host authentic identity capability operationId target unit snapshot) := by
  unfold reserveValidation
  refine load_evolves fun files hfiles => .lift_bind fun _ _ => ?_
  split
  · exact .ite (.bind (saveMain_evolves hfiles) fun _ => .ret _) (.lift _)
  · refine .lift_bind fun _ hroom => .lift_bind fun _ _ => .lift_bind fun _ _ => ?_
    refine .lift_bind fun ⟨sequence, taken⟩ htake => .lift_bind fun _ _ => ?_
    refine .bind (saveMain_evolves ?_) fun _ => .ret _
    have htaken := State.takeSequence_ok htake
    have hnext : files.main.compact.compactSessions.nextSequence ≤ taken.nextSequence := by
      rw [htaken.2, htaken.1]
      exact Nat.le_succ _
    have hkept : ∀ key session, taken.sessions.lookup key = some session → ∃ old,
        files.main.compact.compactSessions.sessions.lookup key = some old ∧
          session.ownership = old.ownership := by
      intro key session h
      rw [htaken.2] at h
      exact ⟨session, h, rfl⟩
    refine State.Evolves.trans ?_
      ((State.compactSessions_evolves _).trans ((State.compact_evolves _).trans hfiles))
    unfold State.reserveValidation
    exact registered_evolves hkept hnext hroom rfl

theorem settleTarget_ownership (main : State) (session : SessionState) (record : OperationRecord)
    (outcome : NormalizedOutcome) (contractCurrent : Bool) :
    (settleTarget main session record outcome contractCurrent).2.ownership = session.ownership := by
  unfold settleTarget
  dsimp only
  split
  · rfl
  · split
    · split <;> rfl
    · rfl

theorem completeValidation_evolves (execution : StoredExecution) (snapshot : ContractSnapshot) :
    Keeps (Evolving host valid main₀)
      (completeValidation reservation execution snapshot) := by
  unfold completeValidation
  refine load_evolves fun files hfiles => .lift_bind fun operation _ => ?_
  dsimp only
  refine .bind (saveMain_evolves (State.Evolves.trans ?_ hfiles)) fun _ => .ret _
  refine .of_kept (Nat.le_refl _) fun key session h => ?_
  dsimp only at h
  split at h
  · rename_i hsome
    obtain ⟨old, hold⟩ := Option.isSome_iff_exists.mp hsome
    rcases lookup_insert_cases h with ⟨rfl, rfl⟩ | ⟨-, hlookup⟩
    · refine ⟨old, hold, (settleTarget_ownership _ _ _ _ _).trans ?_⟩
      rw [State.sessionOr, hold]
      rfl
    · exact ⟨session, hlookup, rfl⟩
  · exact ⟨session, h, rfl⟩

theorem completeShell_evolves (execution : StoredExecution) (snapshot : ContractSnapshot) :
    Keeps (Evolving host valid main₀) (completeShell reservation execution snapshot) := by
  unfold completeShell
  refine load_evolves fun files hfiles => .lift_bind fun operation _ => ?_
  refine saveMain_evolves (State.Evolves.trans ?_ hfiles)
  exact .of_sessions (Nat.le_refl _) rfl

/-! ### The acceptance file -/

theorem recordFailure_evolves (key operationKey : String) (record : OperationRecord) :
    Keeps (Evolving host valid main₀) (recordFailure key operationKey record) := by
  unfold recordFailure
  exact load_evolves fun _ _ => .lift_bind fun _ _ => .lift_bind fun _ _ => .lift_bind fun _ _ =>
    saveAcceptance_evolves _

theorem failValidation_evolves :
    Keeps (Evolving host valid main₀) (failValidation reservation) := by
  unfold failValidation
  exact load_evolves fun _ _ => .lift_bind fun _ _ => recordFailure_evolves _ _ _

theorem quiesceCheck_evolves (capability operationId : String) :
    Keeps (Evolving host valid main₀)
      (quiesceCheck host authentic identity capability operationId) := by
  unfold quiesceCheck
  exact load_evolves fun _ _ => .lift_bind fun _ _ => .ret _

theorem State.forget_evolves (main : State) (key operationKey : String) (record : OperationRecord) :
    (main.forget key operationKey record).Evolves host valid main := by
  unfold State.forget
  refine .of_kept (Nat.le_refl _) fun key' session h => ?_
  dsimp only at h
  split at h
  · rw [Table.lookup_modify] at h
    split at h
    · rw [Option.map_eq_some_iff] at h
      obtain ⟨old, hold, rfl⟩ := h
      refine ⟨old, hold, ?_⟩
      split <;> rfl
    · exact ⟨session, h, rfl⟩
  · exact ⟨session, h, rfl⟩

theorem quiesceCommit_evolves (pending : Reservation) :
    Keeps (Evolving host valid main₀) (quiesceCommit pending) := by
  unfold quiesceCommit
  refine load_evolves fun files hfiles => ?_
  have hforget := (files.main.forget_evolves pending.identity.sessionKey pending.operationKey
    pending.record).trans hfiles
  dsimp only
  refine .ite (.ite ?_ (saveMain_evolves hforget)) (saveMain_evolves hfiles)
  exact .bind (recordFailure_evolves _ _ _) fun _ => saveMain_evolves hforget

theorem register_evolves
    (capability : String) (contract : AcceptanceContract) (contractDigest : String) :
    Keeps (Evolving host valid main₀)
      (register host authentic identity capability contract contractDigest) := by
  unfold register
  refine load_evolves fun _ _ => .lift_bind fun _ _ => .lift_bind fun _ _ => ?_
  refine .bind terminalizeOrphans_evolves fun _ => load_evolves fun _ _ => ?_
  dsimp only
  split
  · refine .ite (.lift_bind fun ⟨_, _⟩ _ => ?_) (.lift _)
    exact .bind (saveAcceptance_evolves _) fun _ => .ret _
  · refine .lift_bind fun ⟨_, _⟩ _ => .lift_bind fun _ _ => ?_
    exact .bind (saveAcceptance_evolves _) fun _ => .ret _

/-- The generation moves, and the sessions are compacted. -/
theorem State.raise_evolves (main : State) (generation : Nat) :
    ({ main with generation }).compactSessions.Evolves host valid main :=
  (State.compactSessions_evolves _).trans (.of_sessions (Nat.le_refl _) rfl)

theorem reconcileReserved_evolves {main : State} (hmain : main.Evolves host valid main₀)
    (acceptance : AcceptanceState) (operationKey : String) (operation : AcceptanceOperation) :
    Keeps (Evolving host valid main₀)
      (reconcileReserved main acceptance operationKey operation) := by
  unfold reconcileReserved
  refine .lift_bind fun _ _ => .ite ?_ (.lift_bind fun _ _ => saveAcceptance_evolves _)
  exact .bind (saveMain_evolves ((main.raise_evolves _).trans hmain)) fun _ =>
    saveAcceptance_evolves _

theorem admitMutation_evolves (hmain : files.main.Evolves host valid main₀)
    (acceptance : AcceptanceState) (operationKey : String) (operation : AcceptanceOperation) :
    Keeps (Evolving host valid main₀)
      (admitMutation host files acceptance operationKey operation) := by
  unfold admitMutation
  refine .lift_bind fun _ _ => .lift_bind fun _ _ => .lift_bind fun ⟨_, _⟩ _ => ?_
  refine .bind (saveAcceptance_evolves _) fun _ => ?_
  exact .bind (saveMain_evolves ((files.main.raise_evolves _).trans hmain)) fun _ =>
    saveAcceptance_evolves _

theorem admitValidator_evolves (files : Files) (acceptance : AcceptanceState)
    (session : AcceptanceSession) (operationKey requirement validatorId : String)
    (operation : AcceptanceOperation) :
    Keeps (Evolving host valid main₀)
      (admitValidator host files acceptance session operationKey requirement validatorId
        operation) := by
  unfold admitValidator
  exact .lift_bind fun _ _ => .lift_bind fun ⟨_, _⟩ _ => .lift_bind fun _ _ =>
    saveAcceptance_evolves _

theorem admit_evolves
    (capability contractDigest operationId attemptToken : String) (request : AdmitOperation) :
    Keeps (Evolving host valid main₀) (admit_ host authentic identity capability
      contractDigest operationId attemptToken request) := by
  unfold admit_
  refine load_evolves fun _ _ => .lift_bind fun _ _ => .lift_bind fun _ _ => ?_
  refine .bind terminalizeOrphans_evolves fun _ => load_evolves fun files hfiles => ?_
  refine .lift_bind fun session _ => .lift_bind fun source _ => ?_
  dsimp only
  split
  · refine .ite (.ite ?_ (.ret _)) (.lift _)
    exact .bind (reconcileReserved_evolves hfiles _ _ _) fun _ => .ret _
  · refine .lift_bind fun _ _ => .lift_bind fun _ _ => ?_
    split
    · exact .bind (admitMutation_evolves hfiles _ _ _) fun _ => .ret _
    · exact .bind (admitValidator_evolves _ _ _ _ _ _ _) fun _ => .ret _

theorem observe_evolves (capability operationId : String) (observation : Observation) :
    Keeps (Evolving host valid main₀)
      (observe host authentic identity capability operationId observation) := by
  unfold observe
  refine load_evolves fun _ _ => .lift_bind fun _ _ => .lift_bind fun _ _ => ?_
  refine .lift_bind fun _ _ => .lift_bind fun _ _ => .lift_bind fun _ _ => ?_
  refine .lift_bind fun _ _ => .lift_bind fun ⟨_, _, _⟩ _ => .lift_bind fun _ _ => ?_
  split
  · exact .lift_bind fun _ _ => .ret _
  · exact .lift_bind fun _ _ => .bind (saveAcceptance_evolves _) fun _ => .ret _

theorem reserveCompletion_evolves (files : Files) (acceptance : AcceptanceState)
    (identity : RequestIdentity) (capabilityDigest contractDigest operationId : String) :
    Keeps (Evolving host valid main₀) (reserveCompletion host files acceptance identity
      capabilityDigest contractDigest operationId) := by
  unfold reserveCompletion
  dsimp only
  split
  · exact .lift _
  · exact .lift_bind fun _ _ => .lift_bind fun ⟨_, _⟩ _ => saveAcceptance_evolves _

theorem verdict_evolves (capability contractDigest : String) (completion : Option String)
    (snapshot : ContractSnapshot) :
    Keeps (Evolving host valid main₀)
      (verdict host authentic identity capability contractDigest completion snapshot) := by
  unfold verdict
  refine load_evolves fun _ _ => .lift_bind fun _ _ => .lift_bind fun _ _ => ?_
  refine .bind terminalizeOrphans_evolves fun _ => load_evolves fun _ _ => ?_
  dsimp only
  refine .ite (.bind (saveAcceptance_evolves _) fun _ => ?_) ?_
  all_goals
    refine .lift_bind fun _ _ => ?_
    split
    · exact .ite (.bind (reserveCompletion_evolves _ _ _ _ _ _) fun _ => .ret _) (.ret _)
    · exact .ret _

/-! ### The finish line -/

end

/-- The owner that a call names for a session. -/
def Call.owner : Call → Option OwnerProcess
  | .open _ _ owner _ => owner
  | .rotate _ _ _ _ _ owner _ => some owner
  | _ => none

section
variable {host valid} {main₀ : State}

theorem discard_evolves {m : Locked α} (h : Keeps (Evolving host valid main₀) m) :
    Keeps (Evolving host valid main₀) (discard m) := .bind h fun _ => .ret _

theorem capture_evolves {f : α → InFlight} {m : Locked (Option α)}
    (h : Keeps (Evolving host valid main₀) m) :
    Keeps (Evolving host valid main₀) (capture f m) := .bind h fun _ => .ret _

theorem Call.run_evolves (call : Call) (hvalid : ∀ process ∈ call.owner, valid process) :
    Keeps (Evolving host valid main₀) (call.run host) := by
  cases call with
  | «open» => exact discard_evolves (openSession_evolves _ _ _ hvalid)
  | recover => exact capture_evolves (recoverCheck_evolves _ _)
  | rotate => exact discard_evolves (recoverCommit_evolves _ _ _ _ _ _ (hvalid _ rfl))
  | release => exact discard_evolves (release_evolves _ _ _)
  | scan => exact .bind (reclaimScan_evolves _) fun _ => .ret _
  | reclaim => exact discard_evolves (reclaimCommit_evolves _ _)
  | begin => exact discard_evolves (beginEdit_evolves _ _ _ _ _)
  | validate => exact capture_evolves (reserveValidation_evolves _ _ _ _ _ _ _)
  | validated => exact discard_evolves (completeValidation_evolves _ _ _)
  | validationFailed => exact discard_evolves (failValidation_evolves _)
  | shell => exact capture_evolves (reserveShell_evolves _ _ _ _ _ _ _)
  | shellDone => exact discard_evolves (completeShell_evolves _ _ _)
  | quiesce => exact capture_evolves (quiesceCheck_evolves _ _ _ _)
  | quiesced => exact discard_evolves (quiesceCommit_evolves _)
  | register => exact discard_evolves (register_evolves _ _ _ _ _)
  | admit_ => exact discard_evolves (admit_evolves _ _ _ _ _ _ _)
  | observe => exact discard_evolves (observe_evolves _ _ _ _ _)
  | verdict => exact discard_evolves (verdict_evolves _ _ _ _ _ _)

theorem Call.written_evolves {call : Call} (hvalid : ∀ process ∈ call.owner, valid process)
    {written : Files} (h : written ∈ (call.run host files).1) :
    written.main.Evolves host valid files.main :=
  (call.run_evolves hvalid files (State.Evolves.refl files.main)).1 written h

end

end NilsCli.FinishLine
