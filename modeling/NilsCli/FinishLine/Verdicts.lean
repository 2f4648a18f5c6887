import NilsCli.FinishLine.Stops

/-!
# Verdicts

A verdict that allows completion rests, for each requirement, on a validator that was admitted at the
current generation and has been observed to succeed.
-/

namespace NilsCli.FinishLine

open Lib

variable {generation : Nat} {session : AcceptanceSession} {acceptance : AcceptanceState}

variable {host : Host} {files files' : Files} {past : List Files} {strict : Prop}

def OpenMutation (moment : Files) : Prop :=
  ∃ key operation, moment.acceptance.operations.lookup key = some operation ∧
    operation.kind = .mutation ∧ operation.terminal = none

theorem Calm.noMutation (h : Calm generation files)
    (hclosed : ¬ OpenMutation files) : NoMutation files :=
  ⟨AcceptanceState.mutationActive_eq_false.mpr fun key operation hlookup hkind hterminal =>
    hclosed ⟨key, operation, hlookup, hkind, hterminal⟩, State.shellActive_eq_false.mpr h.shells⟩

theorem OpenMutation.change (h : OpenMutation files) (hcalm : Calm files.main.generation files)
    (hchange : Change strict files files') : OpenMutation files' := by
  obtain ⟨key, operation, hlookup, hkind, hterminal⟩ := h
  obtain ⟨hreserved, hlater⟩ := hcalm.mutations key operation hlookup hkind hterminal
  have hbusy : ¬ NoMutation files := fun hidle =>
    AcceptanceState.mutationActive_eq_false.mp hidle.1 key operation hlookup hkind hterminal
  cases hchange with
  | shrink | edit | shell | validation | complete =>
    exact ⟨key, operation, hlookup, hkind, hterminal⟩
  | accept hwithin =>
    exact ⟨key, operation, hwithin.reserved key operation hlookup hkind hterminal hreserved, hkind,
      hterminal⟩
  | reserveMutation hidle => exact absurd hidle hbusy
  | admitMutation hrecord _ hgeneration _ _ _ hopen =>
    refine ⟨key, operation, hopen key operation hlookup hterminal ?_, hkind, hterminal⟩
    rintro rfl
    cases hlookup.symm.trans hrecord
    omega
  | admitValidator hidle => exact absurd hidle hbusy
  | completion hidle => exact absurd hidle hbusy

/-! ## Validators since their admission -/

structure AdmittedValidator (later : List Files) (admitted before : Files) (key : String)
    (operation : AcceptanceOperation) : Prop where
  lookup : admitted.acceptance.operations.lookup key = some operation
  terminal : operation.terminal = none
  admission : operation.admission = .admitted
  fresh : before.acceptance.nextSequence < operation.sequence
  generation : admitted.main.generation = operation.generation
  source : ∀ source, operation.sourceOperationKey = some source →
    admitted.main.operations.lookup source = none
  calm : ∀ moment ∈ later ++ [admitted], Calm operation.generation moment
  opened : ∀ moment ∈ later ++ [admitted], OpenMutation moment →
    OpenMutation ((later ++ [admitted]).head (by simp))

def PendingValidator (moments : List Files) (key : String) (operation : AcceptanceOperation) :
    Prop :=
  ∃ later admitted before earlier, moments = later ++ admitted :: before :: earlier ∧
    AdmittedValidator later admitted before key operation

def RanFor (main : State) (operation : AcceptanceOperation) (targetDigest contractDigest : String) :
    Prop :=
  ∃ source run terminal facts, operation.sourceOperationKey = some source ∧
    main.operations.lookup source = some run ∧ run.sessionKey = operation.sessionKey ∧
    run.kind = .validation ∧ run.generation = operation.generation ∧
    run.targetDigest = some targetDigest ∧ run.contractDigest = some contractDigest ∧
    run.terminal = some terminal ∧ terminal.disposition = .applied ∧
    terminal.execution = some facts ∧ facts.clean

def Proven (moments : List Files) (key : String) (contract : AcceptanceContract)
    (contractDigest requirement : String) (generation : Nat) : Prop :=
  ∃ later admitted before earlier operationKey operation validatorId validator,
    moments = later ++ admitted :: before :: earlier ∧
      AdmittedValidator later admitted before operationKey operation ∧
      operation.sessionKey = key ∧ operation.contractDigest = contractDigest ∧
      operation.kind = .validator requirement validatorId ∧ operation.generation = generation ∧
      contract.validator requirement validatorId = some validator ∧
      (∃ moment ∈ later, ∃ terminal, moment.acceptance.operations.lookup operationKey =
        some { operation with terminal := some terminal } ∧
          terminal.observation = .succeeded) ∧
      ∀ intent command targetDigest validationContractDigest,
        validator.execution = .containedBash intent command targetDigest validationContractDigest →
        ∃ moment ∈ later ++ [admitted],
          RanFor moment.main operation targetDigest validationContractDigest

theorem AdmittedValidator.head_eq {later earlier : List Files} {admitted before : Files}
    (hmoments : files :: past = later ++ admitted :: before :: earlier) :
    (later ++ [admitted]).head (by simp) = files := by
  cases later with
  | nil =>
    cases hmoments
    rfl
  | cons moment later =>
    cases hmoments
    rfl

section
variable {later earlier : List Files} {admitted before : Files} {key : String}
  {operation : AcceptanceOperation}

theorem AdmittedValidator.calm_head (h : AdmittedValidator later admitted before key operation)
    (hmoments : files :: past = later ++ admitted :: before :: earlier) :
    Calm operation.generation files := by
  have hhead := h.calm _ (List.head_mem (by simp))
  rwa [AdmittedValidator.head_eq hmoments] at hhead

theorem AdmittedValidator.cons (h : AdmittedValidator later admitted before key operation)
    (hmoments : files :: past = later ++ admitted :: before :: earlier)
    (hcurrent : operation.generation = files.main.generation) (hchange : Change strict files files')
    (hsame : files'.main.generation = files.main.generation) :
    AdmittedValidator (files' :: later) admitted before key operation where
  lookup := h.lookup
  terminal := h.terminal
  admission := h.admission
  fresh := h.fresh
  generation := h.generation
  source := h.source
  calm moment hmem := by
    rcases List.mem_cons.mp hmem with rfl | hmem
    · have hcalm := h.calm_head hmoments
      rw [hcurrent] at hcalm ⊢
      exact hcalm.change hchange hsame
    · exact h.calm moment hmem
  opened moment hmem hopen := by
    rcases List.mem_cons.mp hmem with rfl | hmem
    · exact hopen
    · have hhead := h.opened moment hmem hopen
      rw [AdmittedValidator.head_eq hmoments] at hhead
      have hcalm := h.calm_head hmoments
      rw [hcurrent] at hcalm
      exact hhead.change hcalm hchange

end

theorem PendingValidator.cons {key : String} {operation : AcceptanceOperation}
    (h : PendingValidator (files :: past) key operation)
    (hcurrent : operation.generation = files.main.generation) (hchange : Change strict files files')
    (hsame : files'.main.generation = files.main.generation) :
    PendingValidator (files' :: files :: past) key operation := by
  obtain ⟨later, admitted, before, earlier, hmoments, hadmitted⟩ := h
  exact ⟨files' :: later, admitted, before, earlier, by rw [hmoments]; rfl,
    hadmitted.cons hmoments hcurrent hchange hsame⟩

theorem Proven.cons {key contractDigest requirement : String} {contract : AcceptanceContract}
    (h : Proven (files :: past) key contract contractDigest requirement files.main.generation)
    (hchange : Change strict files files')
    (hsame : files'.main.generation = files.main.generation) :
    Proven (files' :: files :: past) key contract contractDigest requirement
      files.main.generation := by
  obtain ⟨later, admitted, before, earlier, operationKey, operation, validatorId, validator,
    hmoments, hadmitted, hsession, hdigest, hkind, hgeneration, hvalidator,
    ⟨moment, hmem, hended⟩, hran⟩ := h
  refine ⟨files' :: later, admitted, before, earlier, operationKey, operation, validatorId,
    validator, by rw [hmoments]; rfl, hadmitted.cons hmoments hgeneration hchange hsame, hsession,
    hdigest, hkind, hgeneration, hvalidator, ⟨moment, by simp [hmem], hended⟩, ?_⟩
  intro intent command targetDigest validationContractDigest hcontained
  obtain ⟨ranAt, hranAt, hfacts⟩ := hran intent command targetDigest validationContractDigest hcontained
  exact ⟨ranAt, List.mem_cons_of_mem _ hranAt, hfacts⟩

/-! ## The invariant -/

structure Vouched (files : Files) (past : List Files) : Prop where
  validatorGenerations : ∀ key operation requirement validatorId,
    files.acceptance.operations.lookup key = some operation →
      operation.kind = .validator requirement validatorId →
        operation.generation ≤ files.main.generation
  evidenceGenerations : ∀ key session, files.acceptance.sessions.lookup key = some session →
    ∀ requirement evidence, session.evidence.lookup requirement = some evidence →
      evidence.generation ≤ files.main.generation
  ended : ∀ key run, files.main.operations.lookup key = some run → run.kind = .validation →
    ∀ terminal facts code, run.terminal = some terminal → terminal.execution = some facts →
      terminal.outcome = .success code → facts.clean
  validators : ∀ key operation requirement validatorId,
    files.acceptance.operations.lookup key = some operation →
      operation.kind = .validator requirement validatorId → operation.terminal = none →
        operation.generation = files.main.generation →
          PendingValidator (files :: past) key operation
  satisfied : ∀ key session, files.acceptance.sessions.lookup key = some session →
    ∀ requirement evidence, session.evidence.lookup requirement = some evidence →
      evidence.status = .satisfied → evidence.generation = files.main.generation →
        Proven (files :: past) key session.contract session.contractDigest requirement
          files.main.generation

theorem Vouched.validator (h : Vouched files past) (hchange : Change strict files files')
    {key requirement validatorId : String} {operation : AcceptanceOperation}
    (hlookup : files.acceptance.operations.lookup key = some operation)
    (hkind : operation.kind = .validator requirement validatorId)
    (hterminal : operation.terminal = none)
    (hcurrent : operation.generation = files'.main.generation) :
    PendingValidator (files' :: files :: past) key operation := by
  have hbefore := h.validatorGenerations key operation requirement validatorId hlookup hkind
  have hle := hchange.generation_le
  have hsame : files'.main.generation = files.main.generation := by omega
  exact (h.validators key operation requirement validatorId hlookup hkind hterminal
    (hcurrent.trans hsame)).cons (hcurrent.trans hsame) hchange hsame

theorem Vouched.requirement (h : Vouched files past) (hchange : Change strict files files')
    {key requirement : String} {evidence : RequirementEvidence}
    (hlookup : files.acceptance.sessions.lookup key = some session)
    (hevidence : session.evidence.lookup requirement = some evidence)
    (hstatus : evidence.status = .satisfied)
    (hcurrent : evidence.generation = files'.main.generation) :
    Proven (files' :: files :: past) key session.contract session.contractDigest requirement
      files'.main.generation := by
  have hbefore := h.evidenceGenerations key session hlookup requirement evidence hevidence
  have hle := hchange.generation_le
  have hsame : files'.main.generation = files.main.generation := by omega
  have hproven := h.satisfied key session hlookup requirement evidence hevidence hstatus
    (hcurrent.trans hsame)
  rw [hsame]
  exact hproven.cons hchange hsame

theorem Vouched.of_main (h : Vouched files past) {main : State}
    (hchange : Change strict files { files with main })
    (hended : ∀ key run, main.operations.lookup key = some run → run.kind = .validation →
      files.main.operations.lookup key = some run ∨ run.terminal = none ∨
        ∃ old execution disposition, run = OperationRecord.settle old execution disposition) :
    Vouched { files with main } (files :: past) where
  validatorGenerations key operation requirement validatorId hlookup hkind :=
    (h.validatorGenerations key operation requirement validatorId hlookup hkind).trans
      hchange.generation_le
  evidenceGenerations key session hlookup requirement evidence hevidence :=
    (h.evidenceGenerations key session hlookup requirement evidence hevidence).trans
      hchange.generation_le
  ended key run hlookup hkind terminal facts code hterminal hfacts houtcome := by
    rcases hended key run hlookup hkind with hold | hopen | ⟨old, execution, disposition, rfl⟩
    · exact h.ended key run hold hkind terminal facts code hterminal hfacts houtcome
    · cases hopen.symm.trans hterminal
    · cases hterminal
      cases hfacts
      exact outcome_success houtcome
  validators key operation requirement validatorId hlookup hkind hterminal hcurrent :=
    h.validator hchange hlookup hkind hterminal hcurrent
  satisfied key session hlookup requirement evidence hevidence hstatus hcurrent :=
    h.requirement hchange hlookup hevidence hstatus hcurrent

theorem operationExecution_validator
    {key requirement validatorId : String} {operation : AcceptanceOperation}
    {execution : Option ValidatorExecution}
    (hkind : operation.kind = .validator requirement validatorId)
    (h : operationExecution acceptance key operation = .ok execution) :
    ∃ session validator, acceptance.sessions.lookup key = some session ∧
      session.contractDigest = operation.contractDigest ∧
      session.contract.validator requirement validatorId = some validator ∧
      execution = some validator.execution := by
  unfold operationExecution at h
  rw [hkind] at h
  dsimp only at h
  rw [orErr_bind_ok] at h
  obtain ⟨validator, hvalidator, h⟩ := h
  rw [Option.bind_eq_some_iff] at hvalidator
  obtain ⟨session, hsession, hvalidator⟩ := hvalidator
  rw [Option.filter_eq_some_iff] at hsession
  exact ⟨session, validator, hsession.1, of_decide_eq_true hsession.2, hvalidator,
    (Except.ok.inj h).symm⟩

theorem observedStatus_succeeded {terminal : TerminalOperation} {facts : StoredExecution}
    (h : observedStatus terminal facts = .succeeded) : ∃ code, terminal.outcome = .success code := by
  unfold observedStatus at h
  split at h
  · cases h
  split at h
  · cases h
  split at h
  · cases h
  split at h
  · exact ⟨_, ‹_›⟩
  · cases h

theorem Vouched.oldSession (h : Vouched files past)
    (hchange : Change strict files { files with acceptance }) {key requirement : String}
    {evidence : RequirementEvidence}
    (hold : OldSession files (Succeeded files acceptance) key session)
    (hevidence : session.evidence.lookup requirement = some evidence)
    (hstatus : evidence.status = .satisfied)
    (hcurrent : evidence.generation = files.main.generation) :
    Proven ({ files with acceptance } :: files :: past) key session.contract
      session.contractDigest requirement files.main.generation := by
  rcases hold with hempty | ⟨old, hlookup, hcontract, hdigest, hsub⟩
  · rw [hempty] at hevidence
    cases hevidence
  rw [hcontract, hdigest]
  rcases hsub requirement evidence hevidence with hkept | ⟨first, hfirst, hobserved⟩
  · exact h.requirement hchange hlookup hkept hstatus hcurrent
  obtain ⟨operationKey, operation, validatorId, observation, hoperation, rfl, hkind, hterminal,
    hgeneration, -, -, -, rfl, hsucceeds⟩ := hobserved
  have hsuccess : observation = .succeeded := by
    cases observation <;> first | rfl | cases hstatus
  obtain ⟨⟨execution, hexecution⟩, hmay, terminal, hended, hobservation⟩ := hsucceeds hsuccess
  obtain ⟨found, validator, hfound, hfoundDigest, hvalidator, rfl⟩ :=
    operationExecution_validator hkind hexecution
  cases hlookup.symm.trans hfound
  obtain ⟨later, admitted, before, earlier, hmoments, hadmitted⟩ :=
    h.validators operationKey operation requirement validatorId hoperation hkind hterminal hgeneration
  refine ⟨{ files with acceptance } :: later, admitted, before, earlier, operationKey, operation,
    validatorId, validator, by rw [hmoments]; rfl, hadmitted.cons hmoments hgeneration hchange rfl,
    rfl, hfoundDigest.symm, hkind, hgeneration, hvalidator,
    ⟨_, List.mem_cons_self, terminal, hended, hobservation⟩, ?_⟩
  intro intent command targetDigest validationContractDigest hcontained
  rw [hcontained] at hexecution
  obtain ⟨-, source, run, runTerminal, facts, hsource, hrun, hsession, hvalidation, hsame, htarget,
    hcontractDigest, hrunTerminal, hdisposition, hfacts, hstatusSucceeded⟩ :=
    hmay intent command targetDigest validationContractDigest hexecution hgeneration.le
  obtain ⟨code, houtcome⟩ := observedStatus_succeeded hstatusSucceeded
  refine ⟨files, ?_, source, run, runTerminal, facts, hsource, hrun, hsession, hvalidation, hsame,
    htarget, hcontractDigest, hrunTerminal, hdisposition, hfacts,
    h.ended source run hrun hvalidation runTerminal facts code hrunTerminal hfacts houtcome⟩
  refine List.mem_cons_of_mem _ ?_
  rw [← AdmittedValidator.head_eq hmoments]
  exact List.head_mem (by simp)

theorem Vouched.of_acceptance (h : Vouched files past)
    (hchange : Change strict files { files with acceptance })
    (hoperations : ∀ key operation requirement validatorId,
      acceptance.operations.lookup key = some operation →
        operation.kind = .validator requirement validatorId →
          OldOperation files key operation ∨ operation.generation = files.main.generation ∧
            PendingValidator ({ files with acceptance } :: files :: past) key operation)
    (hsessions : ∀ key session, acceptance.sessions.lookup key = some session →
      ∀ requirement evidence, session.evidence.lookup requirement = some evidence →
        OldSession files (Succeeded files acceptance) key session ∨
          evidence.generation = files.main.generation ∧ evidence.status ≠ .satisfied ∨
          ∃ old, files.acceptance.sessions.lookup key = some old ∧
            old.evidence.lookup requirement = some evidence ∧
            session.contract = old.contract ∧ session.contractDigest = old.contractDigest) :
    Vouched { files with acceptance } (files :: past) where
  validatorGenerations key operation requirement validatorId hlookup hkind := by
    rcases hoperations key operation requirement validatorId hlookup hkind with
      ⟨old, hold, rfl | ⟨-, -, _, rfl, -⟩⟩ | ⟨hgeneration, -⟩
    · exact h.validatorGenerations key operation requirement validatorId hold hkind
    · exact h.validatorGenerations key old requirement validatorId hold hkind
    · exact hgeneration.le
  evidenceGenerations key session hlookup requirement evidence hevidence := by
    rcases hsessions key session hlookup requirement evidence hevidence with
      hempty | ⟨hgeneration, -⟩ | ⟨old, hold, hkept, -⟩
    · rcases hempty with hempty | ⟨old, hold, -, -, hsub⟩
      · rw [hempty] at hevidence
        cases hevidence
      · rcases hsub requirement evidence hevidence with hkept | ⟨first, hfirst, hseen⟩
        · exact h.evidenceGenerations key old hold requirement evidence hkept
        · obtain ⟨_, _, _, _, _, _, _, _, _, _, _, _, rfl, _⟩ := hseen
          exact h.evidenceGenerations key old hold requirement first hfirst
    · exact hgeneration.le
    · exact h.evidenceGenerations key old hold requirement evidence hkept
  ended := h.ended
  validators key operation requirement validatorId hlookup hkind hterminal hcurrent := by
    rcases hoperations key operation requirement validatorId hlookup hkind with
      hold | ⟨-, hpending⟩
    · exact h.validator hchange (hold.open hterminal) hkind hterminal hcurrent
    · exact hpending
  satisfied key session hlookup requirement evidence hevidence hstatus hcurrent := by
    rcases hsessions key session hlookup requirement evidence hevidence with
      hold | ⟨-, hnot⟩ | ⟨old, hold, hkept, hcontract, hdigest⟩
    · exact h.oldSession hchange hold hevidence hstatus hcurrent
    · exact absurd hstatus hnot
    · rw [hcontract, hdigest]
      exact h.requirement hchange hold hkept hstatus hcurrent

theorem Vouched.change (h : Vouched files past) (hchange : Change strict files files') :
    Vouched files' (files :: past) := by
  have hkept := hchange
  cases hchange with
  | shrink hwithin =>
    exact h.of_main hkept fun key run hlookup _ => .inl (hwithin.operations key run hlookup)
  | edit _ _ _ hadds _ hkind =>
    exact h.of_main hkept fun key run hlookup hrun =>
      .inl (hadds.old_validation (by simp [hkind]) hlookup hrun)
  | shell _ _ _ hadds _ hkind =>
    exact h.of_main hkept fun key run hlookup hrun =>
      .inl (hadds.old_validation (by simp [hkind]) hlookup hrun)
  | validation _ _ _ hadds _ hterminal =>
    refine h.of_main hkept fun key run hlookup _ => ?_
    rcases hadds.operations key run hlookup with ⟨-, rfl⟩ | hold
    · exact .inr (.inl hterminal)
    · exact .inl hold
  | complete _ _ _ _ hoperations =>
    refine h.of_main hkept fun key run hlookup _ => ?_
    rcases hoperations key run hlookup with ⟨-, hsettled⟩ | ⟨-, hold⟩
    · exact .inr (.inr ⟨_, _, _, hsettled⟩)
    · exact .inl hold
  | accept hwithin =>
    exact h.of_acceptance hkept
      (fun key operation _ _ hlookup _ => .inl (hwithin.operations key operation hlookup))
      fun key session hlookup _ _ _ => .inl (hwithin.sessions key session hlookup)
  | reserveMutation _ _ hadds hsessions hkind =>
    refine h.of_acceptance hkept (fun key operation requirement validatorId hlookup hvalidator => ?_)
      fun key session hlookup _ _ _ => .inl (hsessions key session hlookup)
    rcases hadds.operations key operation hlookup with ⟨-, rfl⟩ | hold
    · cases hkind.symm.trans hvalidator
    · exact .inl (.refl hold)
  | admitMutation hrecord hkind _ _ hoperations hsessions =>
    refine h.of_acceptance hkept (fun key operation requirement validatorId hlookup hvalidator => ?_)
      fun key session hlookup _ _ _ => .inl (hsessions key session hlookup)
    rcases hoperations key operation hlookup with ⟨-, rfl⟩ | ⟨-, hold⟩
    · cases hkind.symm.trans hvalidator
    · exact .inl (.refl hold)
  | @admitValidator acceptance key requirement validatorId record hidle hadds hkind hadmitted
      hterminal hgeneration hsource hsessions =>
    have hcalm := (hidle.calm files.main.generation).change hkept rfl
    refine h.of_acceptance hkept (fun key' operation _ _ hlookup _ => ?_)
      fun key' session hlookup requirement' evidence hevidence => ?_
    · rcases hadds.operations key' operation hlookup with ⟨rfl, rfl⟩ | hold
      · refine .inr ⟨hgeneration, [], _, files, past, rfl, hadds.added, hterminal, hadmitted,
          hadds.fresh, hgeneration.symm, hsource, fun moment hmem => ?_, fun moment hmem hopen => ?_⟩
        · rw [List.nil_append, List.mem_singleton] at hmem
          rw [hmem, hgeneration]
          exact hcalm
        · rw [List.nil_append, List.mem_singleton] at hmem
          rw [hmem] at hopen
          exact hopen
      · exact .inl (.refl hold)
    · rcases hsessions key' session hlookup with hold | ⟨rfl, old, hold, hcontract, hdigest, -, -, hnew⟩
      · exact .inl hold
      · rw [hnew] at hevidence
        rcases lookup_insert_cases hevidence with ⟨-, rfl⟩ | ⟨-, hsame⟩
        · exact .inr (.inl ⟨hgeneration, by simp⟩)
        · exact .inr (.inr ⟨old, hold, hsame, hcontract, hdigest⟩)
  | completion _ hadds hkind hsessions =>
    refine h.of_acceptance hkept (fun key operation requirement validatorId hlookup hvalidator => ?_)
      fun key session hlookup _ _ _ => .inl (hsessions key session hlookup)
    rcases hadds.operations key operation hlookup with ⟨-, rfl⟩ | hold
    · cases hkind.symm.trans hvalidator
    · exact .inl (.refl hold)

theorem reach_vouched {w : World} (h : (finishLine host).Reach w) : Vouched w.files w.past := by
  refine (reach_keeps (J := Vouched) (fun _ _ _ h hchange => h.change hchange) ?_ h).2
  refine ⟨?_, ?_, ?_, ?_, ?_⟩
  · rintro key operation requirement validatorId ⟨⟩
  · rintro key session ⟨⟩
  · rintro key run ⟨⟩
  · rintro key operation requirement validatorId ⟨⟩
  · rintro key session ⟨⟩

/-! ## Verdicts that allow completion -/

theorem terminalizeOrphans_triple :
    Durable.Triple (· = files) terminalizeOrphans
      (fun _ after => ∃ acceptance : AcceptanceState, after = { files with acceptance } ∧
        Settled files acceptance)
      (fun _ _ => True) (fun _ => True) := by
  rintro s rfl
  refine ⟨fun _ _ => trivial, ?_⟩
  have hresult : (terminalizeOrphans s).2 = .ok () := terminalizeOrphans_result s
  rw [hresult]
  exact terminalizeOrphans_after s

theorem verdict_allows (host : Host) (authentic : OwnerProcess → Bool) (identity : RequestIdentity)
    (capability contractDigest : String) (completion : Option String) (snapshot : ContractSnapshot) :
    Durable.Triple (· = files)
      (verdict host authentic identity capability contractDigest completion snapshot)
      (fun allowed _ => allowed = true → ∃ (acceptance : AcceptanceState)
        (session : AcceptanceSession), Settled files acceptance ∧
        (acceptance.compactSources files.main.generation).sessions.lookup identity.sessionKey =
          some session ∧ session.contractDigest = contractDigest ∧
        (verdictStatuses files.main (acceptance.compactSources files.main.generation) session
          identity.sessionKey (host.runnerCapabilityDigest identity.sessionKey capability)
          snapshot).all (· = .satisfied))
      (fun _ _ => True) (fun _ => True) := by
  unfold verdict
  refine .load_bind ?_
  dsimp only
  refine .lift_bind (fun _ _ _ => trivial) fun _ _ => .lift_bind (fun _ _ _ => trivial) fun _ _ => ?_
  refine .bind terminalizeOrphans_triple fun _ => .each fun after hafter => .load_bind ?_
  obtain ⟨acceptance, rfl, hsettled⟩ := hafter
  dsimp only
  split
  on_goal 1 => refine .bind .trivial fun _ => ?_
  all_goals
    refine .lift_bind (fun _ _ _ => trivial) fun session hsession => ?_
    obtain ⟨hlookup, hdigest⟩ := acceptanceSession_ok hsession
    split
    · split
      · refine .bind .trivial fun _ => .ret fun _ _ hallowed => ?_
        exact ⟨acceptance, session, hsettled, hlookup, hdigest, hallowed⟩
      · exact .ret fun _ _ hallowed => ⟨acceptance, session, hsettled, hlookup, hdigest, hallowed⟩
    · exact .ret fun _ _ hallowed => ⟨acceptance, session, hsettled, hlookup, hdigest, hallowed⟩

theorem satisfied_of_ite {c : Prop} [Decidable c] {status : VerdictStatus}
    (h : (if c then VerdictStatus.infrastructureBlocked else status) = .satisfied) :
    status = .satisfied := by
  split at h
  · cases h
  · exact h

theorem requirementVerdict_satisfied
    {key requirement capabilityDigest : String} {snapshot : ContractSnapshot}
    (h : requirementVerdict acceptance session key requirement capabilityDigest generation snapshot =
      .satisfied) :
    ∃ evidence, session.evidence.lookup requirement = some evidence ∧
      evidence.generation = generation ∧ evidence.status = .satisfied := by
  unfold requirementVerdict at h
  split at h
  · cases h
  · rename_i evidence hevidence
    split at h
    · cases h
    · rename_i hcurrent
      rw [not_or, not_not, not_not] at hcurrent
      refine ⟨evidence, hevidence, hcurrent.1, ?_⟩
      split at h
      · cases h
      · have hsame := satisfied_of_ite h
        split at hsame
        · assumption
        · cases hsame
        · cases hsame
        · cases hsame
        · dsimp only at hsame
          split at hsame <;> cases hsame

def Verified (moments : List Files) (key : String) (contract : AcceptanceContract)
    (contractDigest requirement : String) (generation : Nat) : Prop :=
  ∃ later admitted before earlier operationKey operation validatorId validator,
    moments = later ++ admitted :: before :: earlier ∧
      AdmittedValidator later admitted before operationKey operation ∧
      (∀ moment ∈ later ++ [admitted], NoMutation moment) ∧
      operation.sessionKey = key ∧ operation.contractDigest = contractDigest ∧
      operation.kind = .validator requirement validatorId ∧ operation.generation = generation ∧
      contract.validator requirement validatorId = some validator ∧
      (∃ moment ∈ later, ∃ terminal, moment.acceptance.operations.lookup operationKey =
        some { operation with terminal := some terminal } ∧
          terminal.observation = .succeeded) ∧
      ∀ intent command targetDigest validationContractDigest,
        validator.execution = .containedBash intent command targetDigest validationContractDigest →
        ∃ moment ∈ later ++ [admitted],
          RanFor moment.main operation targetDigest validationContractDigest

theorem Proven.verified {key contractDigest requirement : String} {contract : AcceptanceContract}

    (h : Proven (files :: past) key contract contractDigest requirement generation)
    (hclosed : Calm generation files → ¬ OpenMutation files) :
    Verified (files :: past) key contract contractDigest requirement generation := by
  obtain ⟨later, admitted, before, earlier, operationKey, operation, validatorId, validator,
    hmoments, hadmitted, hsession, hdigest, hkind, rfl, hrest⟩ := h
  have hhead := hclosed (hadmitted.calm_head hmoments)
  refine ⟨later, admitted, before, earlier, operationKey, operation, validatorId, validator,
    hmoments, hadmitted, fun moment hmem => (hadmitted.calm moment hmem).noMutation fun hopen => ?_,
    hsession, hdigest, hkind, rfl, hrest⟩
  have hstill := hadmitted.opened moment hmem hopen
  rw [AdmittedValidator.head_eq hmoments] at hstill
  exact hhead hstill

/-- A verdict that allows completion: every requirement of the registered contract has been proven
at the current generation, and nothing has mutated at any moment since the admission of its
validator. -/
theorem verdict_is_sound {w : World} (h : (finishLine host).Reach w)
    {authentic : OwnerProcess → Bool} {identity : RequestIdentity}
    {capability contractDigest : String} {completion : Option String} {snapshot : ContractSnapshot}
    (hallowed : (verdict host authentic identity capability contractDigest completion
      snapshot).result w.files = .ok true) :
    ∃ session, w.files.acceptance.sessions.lookup identity.sessionKey = some session ∧
      session.contractDigest = contractDigest ∧
      ∀ requirement ∈ session.contract.requirements.keys,
        Verified w.moments identity.sessionKey session.contract contractDigest requirement
          w.files.main.generation := by
  have hends := (verdict_allows host authentic identity capability contractDigest completion
    snapshot).ends (s := w.files) rfl
  rw [hallowed] at hends
  obtain ⟨acceptance, found, hsettled, hfound, hdigest, hstatuses⟩ := hends rfl
  obtain ⟨old, hold, hcontract, hsameDigest, hevidence⟩ :=
    (acceptance.compactSources_sub w.files.main.generation).sessions _ found hfound
  rw [hsettled.sessions] at hold
  refine ⟨old, hold, hsameDigest ▸ hdigest, fun requirement hrequirement => ?_⟩
  have hidle := noMutation_of_satisfied hstatuses
  unfold verdictStatuses at hstatuses
  rw [List.all_append, List.all_append, Bool.and_eq_true, Bool.and_eq_true, List.all_map,
    List.all_eq_true] at hstatuses
  have hsatisfied := hstatuses.1.1 requirement (hcontract ▸ hrequirement)
  obtain ⟨evidence, hfoundEvidence, hcurrent, hstatus⟩ :=
    requirementVerdict_satisfied (of_decide_eq_true hsatisfied)
  have hproven := (reach_vouched h).satisfied _ old hold requirement evidence
    (hevidence ▸ hfoundEvidence) hstatus hcurrent
  rw [← hsameDigest, hdigest] at hproven
  refine hproven.verified fun hcalm => ?_
  rintro ⟨key, operation, hlookup, hkind, hterminal⟩
  have hreserved := (hcalm.mutations key operation hlookup hkind hterminal).1
  exact AcceptanceState.mutationActive_eq_false.mp hidle.1 key operation
    (hsettled.within.reserved key operation hlookup hkind hterminal hreserved) hkind hterminal

/-- A requirement whose validator the host has observed, after an edit. -/
theorem verdict_is_sound_sample :
    ∃ session, (sampleWorld [.open, .edit, .register, .admit_, .observe]).files.acceptance.sessions.lookup
        "s" = some session ∧ session.contractDigest = "q" ∧
      ∀ requirement ∈ session.contract.requirements.keys,
        Verified (sampleWorld [.open, .edit, .register, .admit_, .observe]).moments "s"
          session.contract "q" requirement
          (sampleWorld [.open, .edit, .register, .admit_, .observe]).files.main.generation := by
  have hallowed : (verdict sampleHost (fun _ => true) sampleIdentity "sai" "q" none
      sampleSnapshot).result (sampleWorld [.open, .edit, .register, .admit_, .observe]).files =
        .ok true := by decide +kernel
  exact verdict_is_sound (sampleWorld_reach [.open, .edit, .register, .admit_, .observe]
    (by decide +kernel)) hallowed

end NilsCli.FinishLine
