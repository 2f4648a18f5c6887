import NilsCli.FinishLine.Admission

/-!
# What a write can do

Every write of every call is one of the changes below (`Change`): the main file loses rows or moves
to a later generation, or it gets one new operation, or one of its operations ends; the acceptance
file loses rows and ends operations, or it gets one new operation, or a reserved mutation is
admitted.
-/

namespace NilsCli.FinishLine

open Lib

variable {sequence : Nat} {session : SessionState}

/-! ## The main file -/

/-- The state of a target of a session. -/
def State.target (main : State) (key digest : String) : Option TargetState :=
  (main.sessions.lookup key).bind (·.targets.lookup digest)

/-- `main` has no operation and no target that `main₀` has not, and is not behind it. -/
structure State.Within (main main₀ : State) : Prop where
  generation : main₀.generation ≤ main.generation
  nextSequence : main₀.nextSequence ≤ main.nextSequence
  operations : ∀ key operation, main.operations.lookup key = some operation →
    main₀.operations.lookup key = some operation
  targets : ∀ key digest target, main.target key digest = some target →
    main₀.target key digest = some target

/-- `main` has one new operation, with a fresh sequence, over what it keeps of `main₀`. -/
structure State.Adds (main main₀ : State) (key : String) (record : OperationRecord) : Prop where
  fresh : main₀.nextSequence < record.sequence
  nextSequence : record.sequence ≤ main.nextSequence
  added : main.operations.lookup key = some record
  operations : ∀ key' operation, main.operations.lookup key' = some operation →
    key' = key ∧ operation = record ∨ main₀.operations.lookup key' = some operation

/-- The targets of `main` are those of `main₀`. -/
def State.TargetsWithin (main main₀ : State) : Prop :=
  ∀ key digest target, main.target key digest = some target →
    main₀.target key digest = some target

/-! ## The acceptance file -/

/-- No completion reservation is open. -/
def NoCompletion (acceptance : AcceptanceState) : Prop :=
  ∀ key operation, acceptance.operations.lookup key = some operation →
    operation.kind = .completion → operation.terminal ≠ none

def NoMutation (files : Files) : Prop :=
  files.acceptance.mutationActive = false ∧ files.main.shellActive = false

def RunSucceeded (main : State) (operation : AcceptanceOperation) (targetDigest contractDigest : String) :
    Prop :=
  operation.generation = main.generation ∧ ∃ source run terminal facts,
    operation.sourceOperationKey = some source ∧ main.operations.lookup source = some run ∧
      run.sessionKey = operation.sessionKey ∧ run.kind = .validation ∧
      run.generation = operation.generation ∧ run.targetDigest = some targetDigest ∧
      run.contractDigest = some contractDigest ∧ run.terminal = some terminal ∧
      terminal.disposition = .applied ∧ terminal.execution = some facts ∧
      observedStatus terminal facts = .succeeded

/-- A success of the operation may be recorded. -/
def MaySucceed (files : Files) (operation : AcceptanceOperation) : Prop :=
  ∀ intent command targetDigest contractDigest,
    operationExecution files.acceptance operation.sessionKey operation =
      .ok (some (.containedBash intent command targetDigest contractDigest)) →
    operation.generation ≤ files.main.generation →
    RunSucceeded files.main operation targetDigest contractDigest

def OldOperation (files : Files) (key : String) (operation : AcceptanceOperation) : Prop :=
  ∃ old, files.acceptance.operations.lookup key = some old ∧
    (operation = old ∨ old.terminal = none ∧
      (old.kind = .mutation → old.admission = .admitted) ∧
      ∃ terminal, operation = { old with terminal := some terminal } ∧
        (terminal.observation = .succeeded → MaySucceed files old))

def Succeeded (files : Files) (acceptance : AcceptanceState) (key : String)
    (operation : AcceptanceOperation) : Prop :=
  (∃ execution, operationExecution files.acceptance operation.sessionKey operation =
    .ok execution) ∧
    MaySucceed files operation ∧ ∃ terminal,
      acceptance.operations.lookup key = some { operation with terminal := some terminal } ∧
        terminal.observation = .succeeded

section
variable (files : Files) (succeeds : String → AcceptanceOperation → Prop)

/-- The evidence of a requirement as the observation of its operation has left it. -/
def ObservedEvidence (key requirement : String) (old evidence : RequirementEvidence) : Prop :=
  ∃ operationKey operation validatorId, ∃ observation : ObservationStatus,
    files.acceptance.operations.lookup operationKey = some operation ∧
      operation.sessionKey = key ∧ operation.kind = .validator requirement validatorId ∧
      operation.terminal = none ∧ operation.generation = files.main.generation ∧
      old.generation = operation.generation ∧ old.contractDigest = operation.contractDigest ∧
      old.attemptSequence = operation.sequence ∧
      evidence = { old with status := observation.requirementStatus } ∧
      (observation = .succeeded → succeeds operationKey operation)

def OldSession (key : String) (session : AcceptanceSession) : Prop :=
  session.evidence = ∅ ∨ ∃ old, files.acceptance.sessions.lookup key = some old ∧
    session.contract = old.contract ∧ session.contractDigest = old.contractDigest ∧
    ∀ requirement evidence, session.evidence.lookup requirement = some evidence →
      old.evidence.lookup requirement = some evidence ∨ ∃ oldEvidence,
        old.evidence.lookup requirement = some oldEvidence ∧
          ObservedEvidence files succeeds key requirement oldEvidence evidence

end

structure AcceptanceState.WithinOf (succeeds : String → AcceptanceOperation → Prop)
    (acceptance : AcceptanceState) (files : Files) : Prop where
  nextSequence : files.acceptance.nextSequence ≤ acceptance.nextSequence
  operations : ∀ key operation, acceptance.operations.lookup key = some operation →
    OldOperation files key operation
  reserved : ∀ key operation, files.acceptance.operations.lookup key = some operation →
    operation.kind = .mutation → operation.terminal = none → operation.admission = .reserved →
      acceptance.operations.lookup key = some operation
  sessions : ∀ key session, acceptance.sessions.lookup key = some session →
    OldSession files succeeds key session

abbrev AcceptanceState.Within (acceptance : AcceptanceState) (files : Files) : Prop :=
  acceptance.WithinOf (Succeeded files acceptance) files

structure AcceptanceState.Adds (acceptance : AcceptanceState) (files : Files) (key : String)
    (record : AcceptanceOperation) : Prop where
  fresh : files.acceptance.nextSequence < record.sequence
  nextSequence : record.sequence ≤ acceptance.nextSequence
  added : acceptance.operations.lookup key = some record
  operations : ∀ key' operation, acceptance.operations.lookup key' = some operation →
    key' = key ∧ operation = record ∨ files.acceptance.operations.lookup key' = some operation

def ActiveEvidence (files : Files) (record : AcceptanceOperation) (requirement validatorId : String)
    (session : AcceptanceSession) : Prop :=
  ∃ old, files.acceptance.sessions.lookup record.sessionKey = some old ∧
    session.contract = old.contract ∧ session.contractDigest = old.contractDigest ∧
    record.contractDigest = old.contractDigest ∧
    (∃ validator, old.contract.validator requirement validatorId = some validator) ∧
    session.evidence = old.evidence.insert requirement
      ⟨record.contractDigest, record.generation, record.sequence, validatorId, .active⟩

/-- The effect of one write, with what was checked before it. -/
inductive Change (strict : Prop) (files : Files) : Files → Prop
  | shrink {main : State} (h : main.Within files.main) : Change strict files { files with main }
  | edit {main : State} {key : String} {record : OperationRecord} (hidle : NoMutation files)
      (hcompletion : NoCompletion files.acceptance)
      (hgeneration : main.generation = files.main.generation + 1)
      (hadds : main.Adds files.main key record) (htargets : main.TargetsWithin files.main)
      (hkind : record.kind = .edit) (hterminal : record.terminal ≠ none) :
      Change strict files { files with main }
  | shell {main : State} {key : String} {record : OperationRecord} (hidle : NoMutation files)
      (hcompletion : NoCompletion files.acceptance)
      (hgeneration : main.generation = files.main.generation + 1)
      (hadds : main.Adds files.main key record) (htargets : main.TargetsWithin files.main)
      (hkind : record.kind = .shell) (hterminal : record.terminal = none)
      (hrecord : record.generation = main.generation) : Change strict files { files with main }
  | validation {main : State} {key : String} {record : OperationRecord}
      (hmutation : files.acceptance.mutationActive = false)
      (hshell : strict → files.main.shellActive = false)
      (hgeneration : main.generation = files.main.generation)
      (hadds : main.Adds files.main key record) (hkind : record.kind = .validation)
      (hterminal : record.terminal = none) (hrecord : record.generation = main.generation)
      (htargets : ∀ key digest target, main.target key digest = some target →
        files.main.target key digest = some target ∨ key = record.sessionKey ∧
          record.targetDigest = some digest ∧ record.contractDigest = some target.contractDigest ∧
          target.generation = record.generation ∧ target.attemptSequence = record.sequence ∧
          target.status = .pending) :
      Change strict files { files with main }
  | complete {main : State} {key : String} {record : OperationRecord}
      {execution : StoredExecution} {disposition : CompletionDisposition}
      (hrecord : files.main.operations.lookup key = some record)
      (hterminal : record.terminal = none)
      (hgeneration : main.generation = files.main.generation)
      (hsequence : main.nextSequence = files.main.nextSequence)
      (hoperations : ∀ key' operation, main.operations.lookup key' = some operation →
        key' = key ∧ operation = record.settle execution disposition ∨
          key' ≠ key ∧ files.main.operations.lookup key' = some operation)
      (htargets : ∀ key' digest target, main.target key' digest = some target →
        files.main.target key' digest = some target ∨ ∃ old,
          files.main.target key' digest = some old ∧ record.kind = .validation ∧
            record.generation = files.main.generation ∧ old.generation = record.generation ∧
            old.attemptSequence = record.sequence ∧
            (∃ status, target = { old with status }) ∧
            (target.status = .success → execution.clean))
      (hsettled : main.operations.lookup key = some (record.settle execution disposition)) :
      Change strict files { files with main }
  | accept {acceptance : AcceptanceState} (h : acceptance.Within files) :
      Change strict files { files with acceptance }
  | reserveMutation {acceptance : AcceptanceState} {key : String} {record : AcceptanceOperation}
      (hidle : NoMutation files) (hcompletion : NoCompletion files.acceptance)
      (hadds : acceptance.Adds files key record)
      (hsessions : ∀ key session, acceptance.sessions.lookup key = some session →
        OldSession files (Succeeded files acceptance) key session)
      (hkind : record.kind = .mutation) (hreserved : record.admission = .reserved)
      (hterminal : record.terminal = none)
      (hgeneration : record.generation = files.main.generation + 1) :
      Change strict files { files with acceptance }
  | admitMutation {acceptance : AcceptanceState} {key : String} {record : AcceptanceOperation}
      (hrecord : files.acceptance.operations.lookup key = some record)
      (hkind : record.kind = .mutation) (hgeneration : record.generation = files.main.generation)
      (hsequence : files.acceptance.nextSequence ≤ acceptance.nextSequence)
      (hoperations : ∀ key' operation, acceptance.operations.lookup key' = some operation →
        key' = key ∧ operation = { record with admission := .admitted } ∨
          key' ≠ key ∧ files.acceptance.operations.lookup key' = some operation)
      (hsessions : ∀ key session, acceptance.sessions.lookup key = some session →
        OldSession files (Succeeded files acceptance) key session)
      (hopen : ∀ key' operation, files.acceptance.operations.lookup key' = some operation →
        operation.terminal = none → key' ≠ key →
          acceptance.operations.lookup key' = some operation) :
      Change strict files { files with acceptance }
  | admitValidator {acceptance : AcceptanceState} {key requirement validatorId : String}
      {record : AcceptanceOperation} (hidle : NoMutation files)
      (hadds : acceptance.Adds files key record)
      (hkind : record.kind = .validator requirement validatorId)
      (hadmitted : record.admission = .admitted) (hterminal : record.terminal = none)
      (hgeneration : record.generation = files.main.generation)
      (hsource : ∀ source, record.sourceOperationKey = some source →
        files.main.operations.lookup source = none)
      (hsessions : ∀ key session, acceptance.sessions.lookup key = some session →
        OldSession files (Succeeded files acceptance) key session ∨
          key = record.sessionKey ∧ ActiveEvidence files record requirement validatorId session) :
      Change strict files { files with acceptance }
  | completion {acceptance : AcceptanceState} {key : String} {record : AcceptanceOperation}
      (hidle : NoMutation files) (hadds : acceptance.Adds files key record)
      (hkind : record.kind = .completion)
      (hsessions : ∀ key session, acceptance.sessions.lookup key = some session →
        OldSession files (Succeeded files acceptance) key session) :
      Change strict files { files with acceptance }

/-! ## Writes that keep less -/

section
variable {main main' main₀ : State} {key : String}

theorem State.Within.refl (main : State) : main.Within main :=
  ⟨le_rfl, le_rfl, fun _ _ h => h, fun _ _ _ h => h⟩

theorem State.Within.trans (h : main.Within main') (h' : main'.Within main₀) :
    main.Within main₀ where
  generation := h'.generation.trans h.generation
  nextSequence := h'.nextSequence.trans h.nextSequence
  operations key operation hlookup := h'.operations key operation (h.operations key operation hlookup)
  targets key digest target hlookup := h'.targets key digest target (h.targets key digest target hlookup)

/-- The rows that a filter keeps were there. -/
theorem lookup_of_filter {ν : Type} {p : String → ν → Bool} {table : Table String ν} {v : ν}
    (h : (table.filter p).lookup key = some v) : table.lookup key = some v := by
  rw [Table.lookup_filter] at h
  exact (Option.filter_eq_some_iff.mp h).1

/-- Fewer sessions, each with fewer targets. -/
theorem targets_of_sessions {main main₀ : State}
    (h : ∀ key session, main.sessions.lookup key = some session → ∃ old,
      main₀.sessions.lookup key = some old ∧ ∀ digest target,
        session.targets.lookup digest = some target → old.targets.lookup digest = some target) :
    main.TargetsWithin main₀ := by
  intro key digest target htarget
  unfold State.target at htarget ⊢
  rw [Option.bind_eq_some_iff] at htarget ⊢
  obtain ⟨session, hsession, hlookup⟩ := htarget
  obtain ⟨old, hold, hsub⟩ := h key session hsession
  exact ⟨old, hold, hsub digest target hlookup⟩

theorem State.compactSessions_within (main : State) : main.compactSessions.Within main where
  generation := le_rfl
  nextSequence := le_rfl
  operations _ _ h := h
  targets := by
    refine targets_of_sessions fun key session hsession => ?_
    have hmap := lookup_of_filter hsession
    rw [Table.lookup_mapVal, Option.map_eq_some_iff] at hmap
    obtain ⟨old, hold, rfl⟩ := hmap
    exact ⟨old, hold, fun digest target htarget => lookup_of_filter htarget⟩

/-- The same sessions, fewer operations, no earlier. -/
theorem State.Within.of_operations (hgeneration : main₀.generation ≤ main.generation)
    (hsequence : main₀.nextSequence ≤ main.nextSequence)
    (hoperations : ∀ key operation, main.operations.lookup key = some operation →
      main₀.operations.lookup key = some operation)
    (hsessions : main.sessions = main₀.sessions) : main.Within main₀ where
  generation := hgeneration
  nextSequence := hsequence
  operations := hoperations
  targets key digest target h := by
    unfold State.target at h ⊢
    rwa [hsessions] at h

/-- The same operations and sessions, no earlier. -/
theorem State.Within.of_eq (hgeneration : main₀.generation ≤ main.generation)
    (hsequence : main₀.nextSequence ≤ main.nextSequence)
    (hoperations : main.operations = main₀.operations)
    (hsessions : main.sessions = main₀.sessions) : main.Within main₀ :=
  .of_operations hgeneration hsequence (fun key operation h => by rwa [hoperations] at h) hsessions

theorem State.filterOperations_within (main : State) (p : String → OperationRecord → Bool) :
    ({ main with operations := main.operations.filter p } : State).Within main :=
  .of_operations (Nat.le_refl _) (Nat.le_refl _) (fun _ _ h => lookup_of_filter h) rfl

theorem State.compact_within (main : State) : main.compact.Within main := by
  unfold State.compact
  dsimp only
  split
  · exact main.compactSessions_within
  · exact (main.compactSessions.filterOperations_within _).trans main.compactSessions_within

theorem State.compactTombstones_within (main : State) : main.compactTombstones.Within main := by
  unfold State.compactTombstones
  split
  · exact .refl main
  · exact .of_eq (Nat.le_refl _) (Nat.le_refl _) rfl rfl

theorem State.takeSequence_ok (h : main.takeSequence = .ok (sequence, main')) :
    sequence = main.nextSequence + 1 ∧ main' = { main with nextSequence := sequence } := by
  unfold State.takeSequence at h
  rw [bind_eq_ok] at h
  obtain ⟨sequence', hsequence, h⟩ := h
  cases h
  exact ⟨checkedSucc_ok hsequence, rfl⟩

theorem State.takeSequence_within (h : main.takeSequence = .ok (sequence, main')) :
    main'.Within main := by
  obtain ⟨rfl, rfl⟩ := State.takeSequence_ok h
  exact ⟨le_rfl, Nat.le_succ _, fun _ _ h => h, fun _ _ _ h => h⟩

/-- One session changes, and gets no target. -/
theorem State.Within.insert (hgeneration : main₀.generation ≤ main.generation)
    (hsequence : main₀.nextSequence ≤ main.nextSequence)
    (hoperations : ∀ key operation, main.operations.lookup key = some operation →
      main₀.operations.lookup key = some operation)
    (hsessions : main.sessions = main₀.sessions.insert key session)
    (htargets : ∀ digest target, session.targets.lookup digest = some target →
      main₀.target key digest = some target) : main.Within main₀ where
  generation := hgeneration
  nextSequence := hsequence
  operations := hoperations
  targets key' digest target htarget := by
    unfold State.target at htarget
    rw [hsessions] at htarget
    by_cases hkey : key' = key
    · subst hkey
      rw [AList.lookup_insert] at htarget
      exact htargets digest target htarget
    · rw [AList.lookup_insert_ne hkey] at htarget
      exact htarget

theorem State.within_insert (h : ∀ digest target, session.targets.lookup digest = some target →
      main.target key digest = some target) :
    ({ main with sessions := main.sessions.insert key session } : State).Within main :=
  .insert (Nat.le_refl _) (Nat.le_refl _) (fun _ _ h => h) rfl h

end

end NilsCli.FinishLine
