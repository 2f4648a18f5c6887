import NilsCli.FinishLine.AcceptanceCalls
import NilsCli.Lib.Transition

/-!
# The finish line of one repository

Any number of sessions call the finish line of a repository, in any order.
-/

namespace NilsCli.FinishLine

open Lib

variable {R : Files → Files → Prop} {files : Files} {α : Type}

variable (host : Host)

variable (w : World) (calls : List SampleCall)

inductive InFlight where
  | validation (reservation : Reservation)
  | shell (reservation : Reservation)
  | recovery (recovery : Recovery)
  | quiesce (pending : Reservation)
  | orphan (candidate : OrphanCandidate)
  deriving DecidableEq

inductive Call where
  | open (identity : RequestIdentity) (attemptToken : String) (owner : Option OwnerProcess)
      (leaseExpiresAt : Nat)
  | recover (dead : OwnerProcess → Bool) (identity : RequestIdentity)
  | rotate (dead authentic : OwnerProcess → Bool) (quiet : Bool) (recovery : Recovery)
      (attemptToken : String) (newOwner : OwnerProcess) (leaseExpiresAt : Nat)
  | release (authentic : OwnerProcess → Bool) (identity : RequestIdentity) (capability : String)
  | scan (now : Nat)
  | reclaim (now : Nat) (candidate : OrphanCandidate)
  | begin (authentic : OwnerProcess → Bool) (identity : RequestIdentity)
      (operationId attemptToken : String) (snapshot : ContractSnapshot)
  | validate (authentic : OwnerProcess → Bool) (identity : RequestIdentity)
      (capability operationId : String) (target : ValidationTarget) (unit : String)
      (snapshot : ContractSnapshot)
  | validated (reservation : Reservation) (execution : StoredExecution)
      (snapshot : ContractSnapshot)
  | validationFailed (reservation : Reservation)
  | shell (authentic : OwnerProcess → Bool) (identity : RequestIdentity)
      (capability operationId shellDigest unit : String) (snapshot : ContractSnapshot)
  | shellDone (reservation : Reservation) (execution : StoredExecution)
      (snapshot : ContractSnapshot)
  | quiesce (authentic : OwnerProcess → Bool) (identity : RequestIdentity)
      (capability operationId : String)
  | quiesced (pending : Reservation)
  | register (authentic : OwnerProcess → Bool) (identity : RequestIdentity) (capability : String)
      (contract : AcceptanceContract) (contractDigest : String)
  | admit_ (authentic : OwnerProcess → Bool) (identity : RequestIdentity)
      (capability contractDigest operationId attemptToken : String) (request : AdmitOperation)
  | observe (authentic : OwnerProcess → Bool) (identity : RequestIdentity)
      (capability operationId : String) (observation : Observation)
  | verdict (authentic : OwnerProcess → Bool) (identity : RequestIdentity)
      (capability contractDigest : String) (completion : Option String)
      (snapshot : ContractSnapshot)

/-- What a call must have captured before. -/
def Call.needs : Call → Option InFlight
  | .rotate _ _ _ recovery _ _ _ => some (.recovery recovery)
  | .reclaim _ candidate => some (.orphan candidate)
  | .validated reservation _ _ | .validationFailed reservation => some (.validation reservation)
  | .shellDone reservation _ _ => some (.shell reservation)
  | .quiesced pending => some (.quiesce pending)
  | _ => none

def discard {α : Type} (m : Locked α) : Locked (List InFlight) := do
  let _ ← m
  pure []

/-- A call that captures what it has found. -/
def capture {α : Type} (f : α → InFlight) (m : Locked (Option α)) : Locked (List InFlight) := do
  let found ← m
  pure (found.toList.map f)

/-- The call with the lock, and what it captures. -/
def Call.run : Call → Locked (List InFlight)
  | .open identity token owner lease => discard (openSession host identity token owner lease)
  | .recover dead identity => capture .recovery (recoverCheck dead identity)
  | .rotate dead authentic quiet recovery token owner lease =>
    discard (recoverCommit host dead authentic quiet recovery token owner lease)
  | .release authentic identity capability => discard (FinishLine.release host authentic identity capability)
  | .scan now => do
    let candidates ← reclaimScan now
    pure (candidates.map .orphan)
  | .reclaim now candidate => discard (reclaimCommit host now candidate)
  | .begin authentic identity id token snapshot =>
    discard (beginEdit host authentic identity id token snapshot)
  | .validate authentic identity capability id target unit snapshot =>
    capture .validation (reserveValidation host authentic identity capability id target unit snapshot)
  | .validated reservation execution snapshot =>
    discard (completeValidation reservation execution snapshot)
  | .validationFailed reservation => discard (failValidation reservation)
  | .shell authentic identity capability id shellDigest unit snapshot =>
    capture .shell (reserveShell host authentic identity capability id shellDigest unit snapshot)
  | .shellDone reservation execution snapshot =>
    discard (completeShell reservation execution snapshot)
  | .quiesce authentic identity capability id =>
    capture .quiesce (quiesceCheck host authentic identity capability id)
  | .quiesced pending => discard (quiesceCommit pending)
  | .register authentic identity capability contract digest =>
    discard (FinishLine.register host authentic identity capability contract digest)
  | .admit_ authentic identity capability digest id token request =>
    discard (FinishLine.admit_ host authentic identity capability digest id token request)
  | .observe authentic identity capability id observation =>
    discard (FinishLine.observe host authentic identity capability id observation)
  | .verdict authentic identity capability digest completion snapshot =>
    discard (FinishLine.verdict host authentic identity capability digest completion snapshot)

/-- A moment of the repository. -/
structure World where
  files : Files
  /-- The files of the earlier moments, the last one first. -/
  past : List Files
  inFlight : List InFlight
  deriving DecidableEq

def World.start : World := ⟨⟨.new, .new⟩, [], []⟩

def World.moments : List Files := w.files :: w.past

/-- One write. -/
def World.write (files : Files) : World :=
  { w with files, past := w.files :: w.past }

def World.next (call : Call) (writes : Nat) (w : World) : Option World :=
  if ∀ captured ∈ call.needs, captured ∈ w.inFlight then
    let (trace, result) := call.run host w.files
    let w' := (trace.take writes).foldl World.write w
    match result with
    | .ok captured =>
      if trace.length ≤ writes then some { w' with inFlight := w'.inFlight ++ captured }
      else some w'
    | .error _ => some w'
  else none

/-- The finish line of a repository. -/
def finishLine : Lts where
  State := World
  Label := Call × Nat
  init w := w = .start
  step l w w' := w.next host l.1 l.2 = some w'

/-! ## Steps -/

section
variable {host} {strict : Prop}

theorem discard_writes {m : Locked α}
    (h : Durable.Writes R files m) : Durable.Writes R files (discard m) := .bind h fun _ _ => .ret _

theorem capture_writes {f : α → InFlight} {m : Locked (Option α)} (h : Durable.Writes R files m) :
    Durable.Writes R files (capture f m) := .bind h fun _ _ => .ret _

def Call.Waits (files : Files) : Call → Prop
  | .validate .. => files.main.shellActive = false
  | _ => True

def Call.Matches : Call → Prop
  | .validated reservation _ _ => reservation.record.kind = .validation
  | _ => True

theorem Call.run_writes (call : Call) (hmatches : call.Matches)
    (hwaits : strict → call.Waits files) :
    Durable.Writes (Change strict) files (call.run host) := by
  cases call with
  | «open» => exact discard_writes (openSession_writes host _ _ _ _)
  | recover => exact capture_writes (recoverCheck_writes _ _)
  | rotate => exact discard_writes (recoverCommit_writes host _ _ _ _ _ _ _)
  | release => exact discard_writes (release_writes host _ _ _)
  | scan => exact .bind (reclaimScan_writes _) fun _ _ => .ret _
  | reclaim => exact discard_writes (reclaimCommit_writes host _ _)
  | begin => exact discard_writes (beginEdit_writes host _ _ _ _ _)
  | validate => exact capture_writes (reserveValidation_writes host _ _ _ _ _ _ _ hwaits)
  | validated => exact discard_writes (completeValidation_writes _ _ _ hmatches)
  | validationFailed => exact discard_writes (failValidation_writes _)
  | shell => exact capture_writes (reserveShell_writes host _ _ _ _ _ _ _)
  | shellDone => exact discard_writes (completeShell_writes _ _ _)
  | quiesce => exact capture_writes (quiesceCheck_writes host _ _ _ _)
  | quiesced => exact discard_writes (quiesceCommit_writes _)
  | register => exact discard_writes (register_writes host _ _ _ _ _)
  | admit_ => exact discard_writes (admit_writes host _ _ _ _ _ _ _)
  | observe => exact discard_writes (observe_writes host _ _ _ _ _)
  | verdict => exact discard_writes (verdict_writes host _ _ _ _ _ _)

def Issued (kind : StoredOperationKind) (main : State) (reservation : Reservation) : Prop :=
  reservation.record.kind = kind ∧ reservation.record.sequence ≤ main.nextSequence

theorem reserveValidation_issued (authentic : OwnerProcess → Bool) (identity : RequestIdentity)
    (capability operationId : String) (target : ValidationTarget) (unit : String)
    (snapshot : ContractSnapshot) :
    Durable.Triple (fun _ => True)
      (reserveValidation host authentic identity capability operationId target unit snapshot)
      (fun found files => ∀ reservation ∈ found, Issued .validation files.main reservation)
      (fun _ _ => True) (fun _ => True) := by
  refine .each fun files _ => ?_
  unfold reserveValidation
  refine .load_bind ?_
  dsimp only
  refine .lift_bind (fun _ _ _ => trivial) fun _ _ => ?_
  split
  · split
    · exact .bind (R := fun _ _ => True) (.write fun _ _ => ⟨trivial, trivial⟩) fun _ =>
        .ret fun _ _ _ h => by cases h
    · exact .lift fun _ _ => trivial
  · refine .lift_bind (fun _ _ _ => trivial) fun _ _ => .lift_bind (fun _ _ _ => trivial) fun _ _ => ?_
    refine .lift_bind (fun _ _ _ => trivial) fun _ _ => ?_
    refine .lift_bind (fun _ _ _ => trivial) fun ⟨sequence, taken⟩ htake => ?_
    refine .lift_bind (fun _ _ _ => trivial) fun _ _ => ?_
    refine .bind (R := fun _ files => files.main.nextSequence = sequence) (.write fun _ _ => ?_)
      fun _ => .ret fun files hnext reservation h => ?_
    · refine ⟨trivial, ?_⟩
      show taken.nextSequence = sequence
      rw [(State.takeSequence_ok htake).2]
    · cases h
      exact ⟨rfl, hnext.ge⟩

theorem reserveShell_issued (authentic : OwnerProcess → Bool) (identity : RequestIdentity)
    (capability operationId shellDigest unit : String) (snapshot : ContractSnapshot) :
    Durable.Triple (fun _ => True)
      (reserveShell host authentic identity capability operationId shellDigest unit snapshot)
      (fun found files => ∀ reservation ∈ found, Issued .shell files.main reservation)
      (fun _ _ => True) (fun _ => True) := by
  refine .each fun files _ => ?_
  unfold reserveShell
  refine .load_bind ?_
  dsimp only
  refine .lift_bind (fun _ _ _ => trivial) fun _ _ => ?_
  split
  · split
    · exact .bind (R := fun _ _ => True) (.write fun _ _ => ⟨trivial, trivial⟩) fun _ =>
        .ret fun _ _ _ h => by cases h
    · exact .lift fun _ _ => trivial
  · refine .lift_bind (fun _ _ _ => trivial) fun _ _ => .lift_bind (fun _ _ _ => trivial) fun _ _ => ?_
    refine .bind (R := fun _ _ => True) .trivial fun _ => .each fun current _ => .load_bind ?_
    refine .lift_bind (fun _ _ _ => trivial) fun _ _ => .lift_bind (fun _ _ _ => trivial) fun _ _ => ?_
    refine .lift_bind (fun _ _ _ => trivial) fun ⟨sequence, taken⟩ htake => ?_
    refine .bind (R := fun _ files => files.main.nextSequence = sequence) (.write fun _ _ => ?_)
      fun _ => .ret fun files hnext reservation h => ?_
    · refine ⟨trivial, ?_⟩
      show taken.nextSequence = sequence
      rw [(State.takeSequence_ok htake).2]
    · cases h
      exact ⟨rfl, hnext.ge⟩

end

/-! ## A sample repository -/

/-- Digests that keep what they digest. -/
def sampleHost : Host where
  operationKey session operation := session ++ "/" ++ operation
  releasedSessionKey session digest := session ++ "-" ++ digest
  openRunnerCapability session token incarnation :=
    session ++ token ++ String.ofList (List.replicate (incarnation.getD 0) 'i')
  runnerCapabilityDigest session capability := session ++ "=" ++ capability
  digestParts domain parts := parts.foldl (· ++ "," ++ ·) domain
  overLimit _ := false

def sampleIdentity : RequestIdentity := ⟨"s", "t"⟩

def sampleTarget : ValidationTarget := ⟨"i", "c", "k", "d"⟩

def sampleSnapshot : ContractSnapshot := ⟨"g", [sampleTarget]⟩

def sampleOwner : OwnerProcess := ⟨1, 0, "b", 0, 0, 0⟩

/-- A call of the only session, whose capability is the one of its first opening. -/
inductive SampleCall where
  | open
  | edit
  | shell
  | validate
  | validated
  | recover
  | rotate
  | register
  | admit_
  | observe

def sampleContract : AcceptanceContract :=
  ⟨AList.insert "r" ⟨AList.insert "p" ⟨"b", .hostObserved⟩ ∅⟩ ∅, []⟩

def SampleCall.call (inFlight : List InFlight) : SampleCall → Option Call
  | .open => some (.open sampleIdentity "a" (some sampleOwner) 0)
  | .edit => some (.begin (fun _ => true) sampleIdentity "e" "a" sampleSnapshot)
  | .shell => some (.shell (fun _ => true) sampleIdentity "sai" "x" "h" "u" sampleSnapshot)
  | .validate =>
    some (.validate (fun _ => true) sampleIdentity "sai" "v" sampleTarget "w" sampleSnapshot)
  | .validated => inFlight.findSome? fun captured => match captured with
    | .validation reservation =>
      some (.validated reservation ⟨some 0, none, false, false⟩ sampleSnapshot)
    | _ => none
  | .recover => some (.recover (fun _ => true) sampleIdentity)
  | .rotate => inFlight.findSome? fun captured => match captured with
    | .recovery recovery =>
      some (.rotate (fun _ => true) (fun _ => true) true recovery "b" sampleOwner 0)
    | _ => none
  | .register => some (.register (fun _ => true) sampleIdentity "sai" sampleContract "q")
  | .admit_ => some (.admit_ (fun _ => true) sampleIdentity "sai" "q" "o" "a"
      (.validator "r" "p" "b" none))
  | .observe => some (.observe (fun _ => true) sampleIdentity "sai" "o" (.hostObserved .succeeded))

/-- One call to its end. -/
def sampleNext (sample : SampleCall) : Option World := do
  let call ← sample.call w.inFlight
  w.next sampleHost call 10

def sampleRun : Option World := calls.foldlM sampleNext .start

def sampleWorld : World := (sampleRun calls).getD .start

theorem sampleNext_step {w w' : World} {sample : SampleCall} (h : sampleNext w sample = some w') :
    ∃ call, sample.call w.inFlight = some call ∧ (finishLine sampleHost).step (call, 10) w w' := by
  unfold sampleNext at h
  rw [Option.bind_eq_bind, Option.bind_eq_some_iff] at h
  exact h

theorem sampleWorld_reach (h : (sampleRun calls).isSome) :
    (finishLine sampleHost).Reach (sampleWorld calls) := by
  obtain ⟨w, hw⟩ := Option.isSome_iff_exists.mp h
  have hworld : sampleWorld calls = w := by rw [sampleWorld, hw]; rfl
  rw [hworld]
  refine Lts.Reach.of_foldlM (S := finishLine sampleHost) (fun s sample t hstep => ?_) hw (.init rfl)
  obtain ⟨call, -, hnext⟩ := sampleNext_step hstep
  exact ⟨(call, 10), hnext⟩

end NilsCli.FinishLine
