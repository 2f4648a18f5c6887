import NilsCli.Lib.Transition
import NilsCli.Coordination.Broker
import NilsCli.Coordination.Inbox
import NilsCli.Coordination.Receive

/-!
# The coordination system

A run of the system is a sequence of critical sections of any processes of the host, in the order
in which they take the registry lock.
-/

namespace NilsCli.Coordination

open Lib

structure ControllerReason where
  text : String
  not_drained : text ≠ reasonDrained

/-- What a section does after it took the lock. -/
inductive Section
  /-- A section that only reads, or that fails or dies before its first save. -/
  | maintain
  /-- A section that saves the cleaned registry and nothing else (`wait`). -/
  | clean
  | claim (args : ClaimArgs)
  | setDeclared (args : SetDeclaredArgs)
  | clearDeclared (sessionId incarnation : String)
  | renew (args : ClaimRevisionArgs)
  | release (args : ClaimRevisionArgs)
  | admitObserved (args : AdmitArgs)
  | admitOperation (args : AdmitArgs)
  | complete (args : CompleteArgs)
  | drain
  | completeReplay (args : CompleteArgs)
  | reconcile (args : ReconcileArgs)
  | operatorReconcile (args : OperatorReconcileArgs) (evidence : OperatorReconcileEvidence)
  | provision (args : ProvisionArgs)
  | revoke (record : SessionRecord)
  | forgetRevokedFailedLaunch (record : SessionRecord)
  | markDegraded (sessionId incarnation : String) (generation : Nat)
  | recoverBegin (args : RecoverArgs)
  | recoverCommit (args : RecoverArgs)
  | retire (args : RetireArgs)
  | send (args : SendArgs)
  | recordReply (parent : Option String)
  | receiveObserved (args : ReceiveArgs)
  | receive (args : ReceiveArgs)
  | inbox (args : InboxArgs)
  | showMessage (args : MessageArgs)
  | ack (args : MessageArgs) (ifRevision : Nat) (idempotencyKey : String)
  | reminder (sessionId incarnation agent : String)
  | pending
  | beginAttempt (candidate : NotificationCandidate) (attemptedAt : Int) (blocked : Bool)
  | markSubmitted (candidate : NotificationCandidate)
  | markKnownFailure (candidate : NotificationCandidate) (reason : ControllerReason)
      (retryAfter : Int)
  | markUnknown (candidate : NotificationCandidate) (reason : ControllerReason)
  | markUndeliverable (candidate : NotificationCandidate) (reason : ControllerReason)
  | deferAttempt (candidate : NotificationCandidate) (reason : ControllerReason)
      (detail : Option String) (retryAfter : Int)
  | reconcileAbsent (candidate : NotificationCandidate)

variable {ls : List (Env × Section)}

variable (codec : Codec)

variable (env : Env)

/-! ## Sections of several saves -/

def releaseSection (args : ClaimRevisionArgs) (locked : Registry) :
    Registry × Except CliError Outcome :=
  let cleaned := cleanExpired env env.now locked
  commit cleaned (release codec env args cleaned)

def completeSection (args : CompleteArgs) (locked : Registry) :
    Registry × Except CliError Outcome :=
  let cleaned := cleanExpired env env.now locked
  commit cleaned (complete env args cleaned)

def reconcileSection (args : ReconcileArgs) (locked : Registry) :
    Registry × Except CliError Outcome :=
  match idempotencyReplay env locked args.receiptKey args.digest with
  | .error error => (locked, .error error)
  | .ok (some replay) => (locked, .ok replay)
  | .ok none =>
    match drainCompletionEvents codec locked env.now with
    | .error error => (locked, .error error)
    | .ok (drained, _) => commit drained (reconcile codec env args drained)

def operatorReconcileSection (args : OperatorReconcileArgs)
    (evidence : OperatorReconcileEvidence) (locked : Registry) :
    Registry × Except CliError Outcome :=
  let key : ReceiptKey :=
    ⟨args.record.id, args.incarnation, .operatorOperationReconcile, args.idempotencyKey⟩
  let digest : RequestDigest := .operatorReconcile args.record.id args.incarnation
    args.generation args.lease args.ifRevision
  match idempotencyReplay env locked key digest with
  | .error error => (locked, .error error)
  | .ok (some replay) => (locked, .ok replay)
  | .ok none =>
    match drainCompletionEventsForLease codec locked args.record.id args.incarnation args.lease
        env.now with
    | .error error => (locked, .error error)
    | .ok (drained, count) =>
      if count ≠ 0 then (drained, .error (revisionConflict "operation-revision-conflict"))
      else commit drained (operatorReconcileOperation codec env args evidence drained)

/-! ## Sections of the notification controller -/

def pendingSection (registry : Registry) : Registry :=
  resolveDrainedGenerations (normalizeRegistry codec env.now registry) env.now

/-- `begin_attempt` of a locked recipient; `blocked` is its `notification_block`. -/
def beginNotificationAttempt (candidate : NotificationCandidate) (attemptedAt : Int)
    (blocked : Bool) (locked : Registry) : Registry × Bool :=
  if blocked then (locked, false)
  else if !hasPendingContent locked candidate.targetSessionId candidate.targetIncarnation
      env.now then
    (resolveDrainedGeneration locked candidate.targetSessionId candidate.targetIncarnation
      env.now, false)
  else
    match transitionAttemptAt codec locked candidate env.now attemptedAt with
    | (attempted, some _) => (attempted, true)
    | (_, none) => (locked, false)

def updateAttempt (locked : Registry) (updated : Option Registry) :
    Registry × Except CliError Outcome :=
  match updated with
  | some registry => (registry, .ok (.flag true))
  | none => (locked, .ok (.flag false))

/-! ## One section -/

/-- The body of a section on the locked registry: what it saves and what it returns. -/
def body : Section → Registry → Registry × Except CliError Outcome
  | .maintain, r => (r, .ok .unit)
  | .clean, r => (cleanExpired env env.now r, .ok .unit)
  | .claim args, r => commit r (claim codec env args r)
  | .setDeclared args, r => commit r (setDeclared codec env args r)
  | .clearDeclared sessionId incarnation, r => commit r (clearDeclared env sessionId incarnation r)
  | .renew args, r => commit r (renew codec env args r)
  | .release args, r => releaseSection codec env args r
  | .admitObserved args, r => (r, (admitReplay env args r).map (·.getD .unit))
  | .admitOperation args, r => commit r (admitOperation codec env args r)
  | .complete args, r => completeSection env args r
  | .drain, r => commit r (drainSection codec env r)
  | .completeReplay args, r => commit r (completeReplay env args r)
  | .reconcile args, r => reconcileSection codec env args r
  | .operatorReconcile args evidence, r => operatorReconcileSection codec env args evidence r
  | .provision args, r => provision codec env args r
  | .revoke record, r => (revoke env record r, .ok .unit)
  | .forgetRevokedFailedLaunch record, r => commit r (forgetRevokedFailedLaunch record r)
  | .markDegraded sessionId incarnation generation, r =>
    (markDegraded env sessionId incarnation generation r, .ok .unit)
  | .recoverBegin args, r => commit r (recoverBegin env args r)
  | .recoverCommit args, r => commit r (recoverCommit codec env args r)
  | .retire args, r => commit r (retire codec env args r)
  | .send args, r => send codec env args r
  | .recordReply parent, r => (recordReply r parent env.now, .ok .unit)
  | .receiveObserved args, r => (r, (receiveObserved codec env args r).map (·.getD .unit))
  | .receive args, r => receive codec env args r
  | .inbox args, r => commit r (inbox env args r)
  | .showMessage args, r => commit r (showMessage env args r)
  | .ack args ifRevision key, r => commit r (ack codec env args ifRevision key r)
  | .reminder sessionId incarnation agent, r =>
    commit r (reminder codec env sessionId incarnation agent r)
  | .pending, r => (pendingSection codec env r, .ok .unit)
  | .beginAttempt candidate attemptedAt blocked, r =>
    let (r, begun) := beginNotificationAttempt codec env candidate attemptedAt blocked r
    (r, .ok (.flag begun))
  | .markSubmitted candidate, r => updateAttempt r (transitionSubmitted r candidate env.now)
  | .markKnownFailure candidate reason retryAfter, r =>
    updateAttempt r (transitionKnownFailure r candidate reason.text
      (i64Add env.now (max retryAfter 0)) env.now)
  | .markUnknown candidate reason, r =>
    updateAttempt r (transitionUnknown r candidate reason.text env.now)
  | .markUndeliverable candidate reason, r =>
    updateAttempt r (markUndeliverable codec r candidate reason.text env.now)
  | .deferAttempt candidate reason detail retryAfter, r =>
    updateAttempt r (deferWithDetail codec env r candidate reason.text detail retryAfter env.now)
  | .reconcileAbsent candidate, r =>
    updateAttempt r (transitionReconciledAbsent r candidate env.now)

def Section.observational : Section → Bool
  | .admitObserved _ | .receiveObserved _ | .retire _ | .pending => true
  | _ => false

def locked (sec : Section) (registry : Registry) : Registry :=
  if sec.observational then registry else lockRegistry codec env registry

/-- One critical section. -/
def exec (sec : Section) (registry : Registry) : Registry × Except CliError Outcome :=
  body codec env sec (locked codec env sec registry)

/-! ## Runs -/

structure State where
  registry : Registry
  issued : List String

variable {P : Env × Section → State → Prop} {s : State}

def system : Lts where
  State := State
  Label := Env × Section
  init s := s = ⟨Registry.empty, []⟩
  step l s t := l.1.uuid ∉ s.issued ∧
    t = ⟨(exec codec l.1 l.2 s.registry).1, l.1.uuid :: s.issued⟩

def execAll : List (Env × Section) → State → State
  | [], s => s
  | l :: ls, s => execAll ls ⟨(exec codec l.1 l.2 s.registry).1, l.1.uuid :: s.issued⟩

variable {codec}

def AllMeet (codec : Codec) (P : Env × Section → State → Prop) :
    List (Env × Section) → State → Prop
  | [], _ => True
  | l :: ls, s => P l s ∧
    AllMeet codec P ls ⟨(exec codec l.1 l.2 s.registry).1, l.1.uuid :: s.issued⟩

instance decidableAllMeet (P : Env × Section → State → Prop) [∀ l s, Decidable (P l s)] :
    ∀ ls s, Decidable (AllMeet codec P ls s)
  | [], _ => inferInstanceAs (Decidable True)
  | l :: ls, s =>
    have := decidableAllMeet P ls ⟨(exec codec l.1 l.2 s.registry).1, l.1.uuid :: s.issued⟩
    inferInstanceAs (Decidable (P l s ∧ _))

theorem run_restrict_execAll
    (hnd : (ls.map (·.1.uuid)).Nodup) (hnew : ∀ l ∈ ls, l.1.uuid ∉ s.issued)
    (hP : AllMeet codec P ls s) :
    ((system codec).restrict P).Run ls s (execAll codec ls s) := by
  induction ls generalizing s with
  | nil => exact @Lts.Run.nil ((system codec).restrict P) s
  | cons l ls ih =>
    rw [List.map_cons, List.nodup_cons] at hnd
    have hstep : ((system codec).restrict P).step l s
        ⟨(exec codec l.1 l.2 s.registry).1, l.1.uuid :: s.issued⟩ :=
      ⟨hP.1, hnew l (by simp), rfl⟩
    refine (Lts.Run.single hstep).append (ih hnd.2 (fun l' hl' => ?_) hP.2)
    rw [List.mem_cons, not_or]
    refine ⟨fun heq => hnd.1 ?_, hnew l' (by simp [hl'])⟩
    exact heq ▸ List.mem_map_of_mem hl'

theorem allMeet_of_forall (h : ∀ l ∈ ls, ∀ s, P l s) (s : State) : AllMeet codec P ls s := by
  induction ls generalizing s with
  | nil => trivial
  | cons l ls ih => exact ⟨h l (by simp) s, ih (fun l' hl' => h l' (by simp [hl'])) _⟩

theorem run_execAll (hnd : (ls.map (·.1.uuid)).Nodup)
    (hnew : ∀ l ∈ ls, l.1.uuid ∉ s.issued) : (system codec).Run ls s (execAll codec ls s) :=
  (run_restrict_execAll hnd hnew (allMeet_of_forall (fun _ _ _ => trivial) s)).of_restrict

theorem issued_execAll (ls : List (Env × Section)) (s : State) :
    (execAll codec ls s).issued = (ls.map (·.1.uuid)).reverse ++ s.issued := by
  induction ls generalizing s with
  | nil => rfl
  | cons l ls ih =>
    rw [execAll, ih, List.map_cons, List.reverse_cons, List.append_assoc, List.singleton_append]

theorem reach_execAll (hnd : (ls.map (·.1.uuid)).Nodup) :
    (system codec).Reach (execAll codec ls ⟨Registry.empty, []⟩) :=
  ⟨_, ls, rfl, run_execAll hnd fun _ _ => List.not_mem_nil⟩

end NilsCli.Coordination
