import NilsCli.FinishLine.Moments

/-!
# Rotation of a crashed session

A recovery that gets to its end leaves the session without targets, runs and evidence.
-/

namespace NilsCli.FinishLine

open Lib

variable {main : State} {operationKey : String} {acceptance : AcceptanceState}
  {reservation : Reservation} {α : Type} {w : World}

variable {host : Host} {strict : Prop} {files files' : Files}
  {succeeds : String → AcceptanceOperation → Prop}

structure Since (key : String) (sequence attempts : Nat) (files : Files) : Prop where
  sequence_le : sequence ≤ files.main.nextSequence
  attempts_le : attempts ≤ files.acceptance.nextSequence
  operations : ∀ operationKey operation,
    files.main.operations.lookup operationKey = some operation → operation.sessionKey = key →
      sequence < operation.sequence
  targets : ∀ digest target, files.main.target key digest = some target →
    sequence < target.attemptSequence
  evidence : ∀ session, files.acceptance.sessions.lookup key = some session →
    ∀ requirement evidence, session.evidence.lookup requirement = some evidence →
      attempts < evidence.attemptSequence
  pending : ∀ operationKey operation,
    files.acceptance.operations.lookup operationKey = some operation →
      operation.sessionKey = key → operation.terminal = none → attempts < operation.sequence

section
variable {key : String} {sequence attempts : Nat}

section

variable (h : Since key sequence attempts files)

include h

theorem Since.of_main
    (hnext : files.main.nextSequence ≤ main.nextSequence) (hoperations : ∀ operationKey operation,
      main.operations.lookup operationKey = some operation → operation.sessionKey = key →
        sequence < operation.sequence)
    (htargets : ∀ digest target, main.target key digest = some target →
      sequence < target.attemptSequence) : Since key sequence attempts { files with main } :=
  ⟨h.sequence_le.trans hnext, h.attempts_le, hoperations, htargets, h.evidence, h.pending⟩

theorem Since.of_adds {record : OperationRecord}
    (hadds : main.Adds files.main operationKey record)
    (htargets : ∀ digest target, main.target key digest = some target →
      sequence < target.attemptSequence) : Since key sequence attempts { files with main } := by
  refine h.of_main (hadds.fresh.le.trans hadds.nextSequence) (fun key' operation hlookup hkey => ?_)
    htargets
  rcases hadds.operations key' operation hlookup with ⟨-, rfl⟩ | hold
  · exact lt_of_le_of_lt h.sequence_le hadds.fresh
  · exact h.operations key' operation hold hkey

theorem Since.oldSession {session : AcceptanceSession}
    (hold : OldSession files succeeds key session) (requirement : String)
    (evidence : RequirementEvidence)
    (hevidence : session.evidence.lookup requirement = some evidence) :
    attempts < evidence.attemptSequence := by
  rcases hold with hempty | ⟨old, hlookup, -, -, hsub⟩
  · rw [hempty] at hevidence
    cases hevidence
  · rcases hsub requirement evidence hevidence with hkept | ⟨first, hfirst, hseen⟩
    · exact h.evidence old hlookup requirement evidence hkept
    · obtain ⟨_, _, _, _, _, _, _, _, _, _, _, _, rfl, _⟩ := hseen
      exact h.evidence old hlookup requirement first hfirst

theorem Since.of_acceptance
    (hnext : files.acceptance.nextSequence ≤ acceptance.nextSequence)
    (hpending : ∀ operationKey operation,
      acceptance.operations.lookup operationKey = some operation → operation.sessionKey = key →
        operation.terminal = none → attempts < operation.sequence)
    (hsessions : ∀ session, acceptance.sessions.lookup key = some session →
      OldSession files succeeds key session) :
    Since key sequence attempts { files with acceptance } :=
  ⟨h.sequence_le, h.attempts_le.trans hnext, h.operations, h.targets,
    fun session hlookup => h.oldSession (hsessions session hlookup), hpending⟩

theorem Since.added {record : AcceptanceOperation}
    (hadds : acceptance.Adds files operationKey record) (key' : String)
    (operation : AcceptanceOperation) (hlookup : acceptance.operations.lookup key' = some operation)
    (hkey : operation.sessionKey = key) (hterminal : operation.terminal = none) :
    attempts < operation.sequence := by
  rcases hadds.operations key' operation hlookup with ⟨-, rfl⟩ | hold
  · exact lt_of_le_of_lt h.attempts_le hadds.fresh
  · exact h.pending key' operation hold hkey hterminal

/-- What the session has stays past these sequences. -/
theorem Since.change
    (hchange : Change strict files files') : Since key sequence attempts files' := by
  cases hchange with
  | shrink hwithin =>
    exact h.of_main hwithin.nextSequence
      (fun key' operation hlookup => h.operations key' operation
        (hwithin.operations key' operation hlookup))
      fun digest target htarget => h.targets digest target (hwithin.targets key digest target htarget)
  | edit _ _ _ hadds htargets =>
    exact h.of_adds hadds fun digest target htarget =>
      h.targets digest target (htargets key digest target htarget)
  | shell _ _ _ hadds htargets =>
    exact h.of_adds hadds fun digest target htarget =>
      h.targets digest target (htargets key digest target htarget)
  | validation _ _ _ hadds _ _ _ htargets =>
    refine h.of_adds hadds fun digest target htarget => ?_
    rcases htargets key digest target htarget with hold | ⟨-, -, -, -, hattempt, -⟩
    · exact h.targets digest target hold
    · exact hattempt ▸ lt_of_le_of_lt h.sequence_le hadds.fresh
  | complete hrecord _ _ hsequence hoperations htargets =>
    refine h.of_main hsequence.ge (fun key' operation hlookup hkey => ?_)
      fun digest target htarget => ?_
    · rcases hoperations key' operation hlookup with ⟨-, rfl⟩ | ⟨-, hold⟩
      · have hpast := h.operations _ _ hrecord hkey
        exact hpast
      · exact h.operations key' operation hold hkey
    · rcases htargets key digest target htarget with hold | ⟨old, hold, -, -, -, -, ⟨_, rfl⟩, -⟩
      · exact h.targets digest target hold
      · exact h.targets digest old hold
  | accept hwithin =>
    refine h.of_acceptance hwithin.nextSequence (fun key' operation hlookup hkey hterminal => ?_)
      fun session hlookup => hwithin.sessions key session hlookup
    obtain ⟨old, hold, rfl | ⟨-, -, _, rfl, -⟩⟩ := hwithin.operations key' operation hlookup
    · exact h.pending key' operation hold hkey hterminal
    · cases hterminal
  | reserveMutation _ _ hadds hsessions =>
    exact h.of_acceptance (hadds.fresh.le.trans hadds.nextSequence) (h.added hadds)
      fun session hlookup => hsessions key session hlookup
  | admitMutation hrecord _ _ hsequence hoperations hsessions =>
    refine h.of_acceptance hsequence (fun key' operation hlookup hkey hterminal => ?_)
      fun session hlookup => hsessions key session hlookup
    rcases hoperations key' operation hlookup with ⟨-, rfl⟩ | ⟨-, hold⟩
    · have hpast := h.pending _ _ hrecord hkey hterminal
      exact hpast
    · exact h.pending key' operation hold hkey hterminal
  | admitValidator _ hadds _ _ _ _ _ hsessions =>
    refine ⟨h.sequence_le, h.attempts_le.trans (hadds.fresh.le.trans hadds.nextSequence),
      h.operations, h.targets, fun session hlookup requirement evidence hevidence => ?_,
      h.added hadds⟩
    rcases hsessions key session hlookup with hold | ⟨rfl, old, hold, -, -, -, -, hnew⟩
    · exact h.oldSession hold requirement evidence hevidence
    · rw [hnew] at hevidence
      rcases lookup_insert_cases hevidence with ⟨-, rfl⟩ | ⟨-, hkept⟩
      · exact lt_of_le_of_lt h.attempts_le hadds.fresh
      · exact h.evidence old hold requirement evidence hkept
  | completion _ hadds _ hsessions =>
    exact h.of_acceptance (hadds.fresh.le.trans hadds.nextSequence) (h.added hadds)
      fun session hlookup => hsessions key session hlookup

end

end

theorem invalidate_since {key : String} {sequence : Nat} (hsequence : sequence ≤ main.nextSequence)
    (hoperations : ∀ operationKey operation, main.operations.lookup operationKey = some operation →
      operation.sessionKey ≠ key)
    (htargets : ∀ digest, main.target key digest = none) :
    Since key sequence files.acceptance.nextSequence
      ⟨main, files.acceptance.invalidate key⟩ where
  sequence_le := hsequence
  attempts_le := Nat.le_refl _
  operations operationKey operation hlookup hkey :=
    absurd hkey (hoperations operationKey operation hlookup)
  targets digest target htarget := by
    rw [htargets digest] at htarget
    cases htarget
  evidence session hlookup requirement evidence hevidence := by
    unfold AcceptanceState.invalidate at hlookup
    dsimp only at hlookup
    rw [Table.lookup_modify_self, Option.map_eq_some_iff] at hlookup
    obtain ⟨old, -, rfl⟩ := hlookup
    cases hevidence
  pending operationKey operation hlookup hkey hterminal := by
    unfold AcceptanceState.invalidate at hlookup
    dsimp only at hlookup
    rw [Table.lookup_mapVal, Option.map_eq_some_iff] at hlookup
    obtain ⟨old, -, rfl⟩ := hlookup
    split at hterminal
    · cases hterminal
    · rename_i hopen
      rw [if_neg hopen] at hkey
      simp [hkey, hterminal] at hopen

theorem recoverCommit_since (host : Host) (dead authentic : OwnerProcess → Bool) (quiet : Bool)
    (recovery : Recovery) (attemptToken : String) (newOwner : OwnerProcess) (leaseExpiresAt : Nat) :
    Durable.Triple (· = files) (recoverCommit host dead authentic quiet recovery attemptToken
        newOwner leaseExpiresAt)
      (fun rotated after => rotated = true → Since recovery.identity.sessionKey
        files.main.nextSequence files.acceptance.nextSequence after)
      (fun _ _ => True) (fun _ => True) := by
  unfold recoverCommit
  refine .load_bind ?_
  dsimp only
  refine .lift_bind (fun _ _ _ => trivial) fun _ _ => .lift_bind (fun _ _ _ => trivial) fun _ _ => ?_
  split
  · refine .lift_bind (fun _ _ _ => trivial) fun oldDigest _ => ?_
    refine .lift_bind (fun _ _ _ => trivial) fun generation _ => ?_
    refine .lift_bind (fun _ _ _ => trivial) fun ⟨incarnation, main⟩ htake => ?_
    obtain ⟨hincarnation, hmain⟩ := State.takeSequence_ok htake
    refine .bind (R := fun _ after => after.acceptance =
      files.acceptance.invalidate recovery.identity.sessionKey) (.write fun _ _ => ⟨trivial, rfl⟩)
      fun _ => ?_
    refine .bind (.write fun after hafter => ⟨trivial, ?_⟩) fun _ => .ret fun _ hsince _ => hsince
    rw [hafter]
    have htombstones := State.compactTombstones_within
    refine invalidate_since ?_ (fun operationKey operation hlookup => ?_) fun digest => ?_
    · refine Nat.le_trans ?_ (htombstones _).nextSequence
      show files.main.nextSequence ≤ main.nextSequence
      rw [hmain, hincarnation]
      exact Nat.le_succ _
    · have hkept := (htombstones _).operations operationKey operation hlookup
      rw [Table.lookup_filter] at hkept
      exact of_decide_eq_true (Option.filter_eq_some_iff.mp hkept).2
    · rw [Option.eq_none_iff_forall_ne_some]
      intro target htarget
      have hkept := (htombstones _).targets _ digest target htarget
      unfold State.target at hkept
      rw [AList.lookup_insert] at hkept
      cases hkept
  · exact .ret fun _ _ h => by cases h

/-! ## Old reservations -/

theorem Since.not_current {key : String} {sequence attempts : Nat}
    (h : Since key sequence attempts files) (hkey : reservation.record.sessionKey = key)
    (hold : reservation.record.sequence ≤ sequence) :
    requireCurrent files.main reservation = .error (hookError "finish-line-operation-superseded"
      "finish-line runner reservation is no longer current") := by
  cases hcurrent : requireCurrent files.main reservation with
  | ok operation =>
    obtain ⟨hlookup, -, hsession, -, hsequence, -⟩ := requireCurrent_ok hcurrent
    have hpast := h.operations _ operation hlookup (hsession.trans hkey)
    omega
  | error e =>
    unfold requireCurrent at hcurrent
    rw [bind_eq_error] at hcurrent
    rcases hcurrent with hmissing | ⟨operation, -, hchanged⟩
    · cases hlookup : files.main.operations.lookup reservation.operationKey with
      | none =>
        rw [hlookup] at hmissing
        exact hmissing.symm
      | some operation =>
        rw [hlookup] at hmissing
        cases hmissing
    · rw [bind_eq_error] at hchanged
      rcases hchanged with hrefused | ⟨_, -, hnever⟩
      · rw [ensure_eq_error hrefused]
      · cases hnever

theorem orErr_bind_lift_error {β : Type} {r : Except HookError β} {e : HookError}
    {f : β → Locked α} (h : r = .error e) : (Durable.lift r >>= f) files = ([], .error e) := by
  rw [h]
  rfl

def Refused (reservation : Reservation) (files : Files) : Prop :=
  let superseded := hookError "finish-line-operation-superseded"
    "finish-line runner reservation is no longer current"
  failValidation reservation files = ([], .error superseded) ∧ ∀ execution snapshot,
    completeValidation reservation execution snapshot files = ([], .error superseded) ∧
      completeShell reservation execution snapshot files = ([], .error superseded)

theorem refused_of_not_current (h : requireCurrent files.main reservation = .error (hookError
      "finish-line-operation-superseded" "finish-line runner reservation is no longer current")) :
    Refused reservation files := by
  refine ⟨?_, fun execution snapshot => ⟨?_, ?_⟩⟩
  · unfold failValidation
    rw [Durable.load_bind_apply]
    exact orErr_bind_lift_error h
  · unfold completeValidation
    rw [Durable.load_bind_apply]
    exact orErr_bind_lift_error h
  · unfold completeShell
    rw [Durable.load_bind_apply]
    exact orErr_bind_lift_error h

/-! ## Runs -/

structure WrittenAfter (moments : List Files) (key : String) (files : Files) : Prop where
  targets : ∀ digest target, files.main.target key digest = some target →
    ∀ moment ∈ moments, ∀ key' digest' old, moment.main.target key' digest' = some old →
      old.attemptSequence < target.attemptSequence
  operations : ∀ operationKey operation,
    files.main.operations.lookup operationKey = some operation → operation.sessionKey = key →
      ∀ moment ∈ moments, ∀ key' old, moment.main.operations.lookup key' = some old →
        old.sequence < operation.sequence
  evidence : ∀ session, files.acceptance.sessions.lookup key = some session →
    ∀ requirement evidence, session.evidence.lookup requirement = some evidence →
      ∀ moment ∈ moments, ∀ key' session', moment.acceptance.sessions.lookup key' = some session' →
        ∀ requirement' old, session'.evidence.lookup requirement' = some old →
          old.attemptSequence < evidence.attemptSequence
  pending : ∀ operationKey operation,
    files.acceptance.operations.lookup operationKey = some operation →
      operation.sessionKey = key → operation.terminal = none →
        ∀ moment ∈ moments, ∀ key' old, moment.acceptance.operations.lookup key' = some old →
          old.sequence < operation.sequence

theorem Since.writtenAfter {key : String} (hbounded : PastBounded w.files w.past)
    (h : Since key w.files.main.nextSequence w.files.acceptance.nextSequence files) :
    WrittenAfter w.moments key files where
  targets digest target htarget moment hmoment key' digest' old hold := by
    obtain ⟨hmoment, hle, -⟩ := hbounded moment hmoment
    have hbound := hmoment.targets key' digest' old hold
    have hlater := h.targets digest target htarget
    omega
  operations operationKey operation hlookup hkey moment hmoment key' old hold := by
    obtain ⟨hmoment, hle, -⟩ := hbounded moment hmoment
    have hbound := hmoment.operations key' old hold
    have hlater := h.operations operationKey operation hlookup hkey
    omega
  evidence session hlookup requirement evidence hevidence moment hmoment key' session' hold
      requirement' old hfound := by
    obtain ⟨hmoment, -, hle⟩ := hbounded moment hmoment
    have hbound := hmoment.evidence key' session' hold requirement' old hfound
    have hlater := h.evidence session hlookup requirement evidence hevidence
    omega
  pending operationKey operation hlookup hkey hterminal moment hmoment key' old hold := by
    obtain ⟨hmoment, -, hle⟩ := hbounded moment hmoment
    have hbound := hmoment.attempts key' old hold
    have hlater := h.pending operationKey operation hlookup hkey hterminal
    omega

theorem discard_trace (m : Locked α) (files : Files) :
    (discard m files).1 = (m files).1 := by
  show (Durable.bindTo m _ files).1 = _
  unfold Durable.bindTo
  cases m files with
  | mk trace result =>
    cases result with
    | error e => rfl
    | ok a => exact List.append_nil trace

/-- The step of a rotation that has made all its writes. -/
theorem rotate_since {dead authentic : OwnerProcess → Bool} {quiet : Bool} {recovery : Recovery}
    {attemptToken : String} {newOwner : OwnerProcess} {leaseExpiresAt writes : Nat} {w' : World}
    (hstep : w.next host
      (.rotate dead authentic quiet recovery attemptToken newOwner leaseExpiresAt) writes = some w')
    (hdone : (recoverCommit host dead authentic quiet recovery attemptToken newOwner
      leaseExpiresAt).result w.files = .ok true)
    (hwrites : ((recoverCommit host dead authentic quiet recovery attemptToken newOwner
      leaseExpiresAt) w.files).1.length ≤ writes) :
    Since recovery.identity.sessionKey w.files.main.nextSequence w.files.acceptance.nextSequence
      w'.files := by
  obtain ⟨-, captured, rfl, -⟩ := World.next_cases hstep
  have hends := (recoverCommit_since host dead authentic quiet recovery attemptToken newOwner
    leaseExpiresAt).ends (s := w.files) rfl
  rw [hdone] at hends
  have htrace := discard_trace (recoverCommit host dead authentic quiet recovery attemptToken
    newOwner leaseExpiresAt) w.files
  show Since _ _ _ (w.writes (List.take writes (discard _ w.files).1)).files
  rw [htrace, List.take_of_length_le hwrites, World.writes_files]
  exact hends rfl

/-- After a rotation, whatever happens next: what the session has was written after the rotation,
and the runs that were reserved before it are refused. The recovery may have been interrupted and
repeated any number of times before. -/
theorem rotation_forgets {dead authentic : OwnerProcess → Bool} {quiet : Bool}
    {recovery : Recovery} {attemptToken : String} {newOwner : OwnerProcess}
    {leaseExpiresAt writes : Nat} {w w' w'' : World} {calls : List (Call × Nat)}
    (hreach : (finishLine host).Reach w)
    (hstep : w.next host
      (.rotate dead authentic quiet recovery attemptToken newOwner leaseExpiresAt) writes = some w')
    (hdone : (recoverCommit host dead authentic quiet recovery attemptToken newOwner
      leaseExpiresAt).result w.files = .ok true)
    (hwrites : ((recoverCommit host dead authentic quiet recovery attemptToken newOwner
      leaseExpiresAt) w.files).1.length ≤ writes)
    (hrun : (finishLine host).Run calls w' w'') :
    WrittenAfter w.moments recovery.identity.sessionKey w''.files ∧ ∀ reservation,
      .validation reservation ∈ w.inFlight ∨ .shell reservation ∈ w.inFlight →
        reservation.record.sessionKey = recovery.identity.sessionKey →
          Refused reservation w''.files := by
  have hsince := rotate_since hstep hdone hwrites
  have hknown := (reach_keeps (J := fun _ _ => True) (fun _ _ _ _ _ => trivial) trivial hreach).1
  have hnext : (finishLine host).Reach w' :=
    hreach.next (l := (.rotate dead authentic quiet recovery attemptToken newOwner leaseExpiresAt,
      writes)) hstep
  have hafter : Since recovery.identity.sessionKey w.files.main.nextSequence
      w.files.acceptance.nextSequence w''.files := by
    have hkept := Lts.Run.preserves (S := finishLine host) (I := fun w₁ => World.Known w₁ ∧
      Since recovery.identity.sessionKey w.files.main.nextSequence w.files.acceptance.nextSequence
        (World.files w₁)) (fun l s t hs hst => step_keeps (J := fun files _ =>
          Since recovery.identity.sessionKey w.files.main.nextSequence
            w.files.acceptance.nextSequence files)
        (fun _ _ _ h hchange => h.change hchange) (fun h : False => h.elim) hst hs.1 hs.2) hrun
    have hw' := (reach_keeps (J := fun _ _ => True) (fun _ _ _ _ _ => trivial) trivial hnext).1
    exact (hkept ⟨hw', hsince⟩).2
  refine ⟨hafter.writtenAfter (reach_pastBounded hreach), fun reservation hflight hkey => ?_⟩
  refine refused_of_not_current (hafter.not_current hkey ?_)
  rcases hflight with hmem | hmem
  · exact (hknown _ hmem).2
  · exact (hknown _ hmem).2

def sampleRecovery : Recovery :=
  ⟨sampleIdentity, (takeSnapshot (fun _ => true)
    (sampleWorld [.open, .validate, .recover]).files.main "s").getD ⟨.default, ∅, 0⟩⟩

theorem rotation_forgets_sample : WrittenAfter (sampleWorld [.open, .validate, .recover]).moments "s"
    (sampleWorld [.open, .validate, .recover, .rotate]).files :=
  (rotation_forgets (sampleWorld_reach [.open, .validate, .recover] (by decide +kernel))
    (show (sampleWorld [.open, .validate, .recover]).next sampleHost
      (.rotate (fun _ => true) (fun _ => true) true sampleRecovery "b" sampleOwner 0) 10 =
        some (sampleWorld [.open, .validate, .recover, .rotate]) by decide +kernel)
    (by decide +kernel) (by decide +kernel) (.nil _)).1

end NilsCli.FinishLine
