import NilsCli.FinishLine.Moments

/-!
# Stopping

A session may stop at a generation above zero when each target of the contract has succeeded at the
current generation.
-/

namespace NilsCli.FinishLine

open Lib

variable {main : State} {key : String} {operation : OperationRecord} {w : World}

variable {host : Host} {files files' : Files} {past : List Files}

structure Calm (generation : Nat) (moment : Files) : Prop where
  shells : ∀ key operation, moment.main.operations.lookup key = some operation →
    operation.kind = .shell → operation.terminal ≠ none
  mutations : ∀ key operation, moment.acceptance.operations.lookup key = some operation →
    operation.kind = .mutation → operation.terminal = none →
      operation.admission = .reserved ∧ generation < operation.generation

theorem NoMutation.calm (h : NoMutation files) (generation : Nat) : Calm generation files where
  shells := State.shellActive_eq_false.mp h.2
  mutations key operation hlookup hkind hterminal :=
    absurd hterminal (AcceptanceState.mutationActive_eq_false.mp h.1 key operation hlookup hkind)

theorem Calm.change {strict : Prop} (h : Calm files.main.generation files)
    (hchange : Change strict files files')
    (hsame : files'.main.generation = files.main.generation) :
    Calm files.main.generation files' := by
  cases hchange with
  | shrink hwithin =>
    exact ⟨fun key operation hlookup => h.shells key operation
      (hwithin.operations key operation hlookup), h.mutations⟩
  | edit _ _ hgeneration => exact absurd (hgeneration.symm.trans hsame) (Nat.succ_ne_self _)
  | shell _ _ hgeneration => exact absurd (hgeneration.symm.trans hsame) (Nat.succ_ne_self _)
  | validation _ _ _ hadds hkind =>
    refine ⟨fun key operation hlookup hshell => ?_, h.mutations⟩
    rcases hadds.operations key operation hlookup with ⟨-, rfl⟩ | hold
    · cases hkind.symm.trans hshell
    · exact h.shells key operation hold hshell
  | complete _ _ _ _ hoperations =>
    refine ⟨fun key operation hlookup hshell => ?_, h.mutations⟩
    rcases hoperations key operation hlookup with ⟨-, rfl⟩ | ⟨-, hold⟩
    · simp [OperationRecord.settle]
    · exact h.shells key operation hold hshell
  | accept hwithin =>
    refine ⟨h.shells, fun key operation hlookup hkind hterminal => ?_⟩
    obtain ⟨old, hold, rfl | ⟨-, -, _, rfl, -⟩⟩ := hwithin.operations key operation hlookup
    · exact h.mutations key operation hold hkind hterminal
    · cases hterminal
  | reserveMutation _ _ hadds _ _ hreserved _ hgeneration =>
    refine ⟨h.shells, fun key operation hlookup hkind hterminal => ?_⟩
    rcases hadds.operations key operation hlookup with ⟨-, rfl⟩ | hold
    · exact ⟨hreserved, hgeneration ▸ Nat.lt_succ_self _⟩
    · exact h.mutations key operation hold hkind hterminal
  | admitMutation hrecord hkind hgeneration _ hoperations =>
    refine ⟨h.shells, fun key operation hlookup hmutation hterminal => ?_⟩
    rcases hoperations key operation hlookup with ⟨rfl, rfl⟩ | ⟨-, hold⟩
    · have hlater := (h.mutations _ _ hrecord hkind hterminal).2
      exact absurd hgeneration hlater.ne'
    · exact h.mutations key operation hold hmutation hterminal
  | admitValidator _ hadds hkind =>
    refine ⟨h.shells, fun key operation hlookup hmutation hterminal => ?_⟩
    rcases hadds.operations key operation hlookup with ⟨-, rfl⟩ | hold
    · cases hkind.symm.trans hmutation
    · exact h.mutations key operation hold hmutation hterminal
  | completion _ hadds hkind =>
    refine ⟨h.shells, fun key operation hlookup hmutation hterminal => ?_⟩
    rcases hadds.operations key operation hlookup with ⟨-, rfl⟩ | hold
    · cases hkind.symm.trans hmutation
    · exact h.mutations key operation hold hmutation hterminal

/-! ## Runs since their reservation -/

structure ReservedRun (later : List Files) (reserved before : Files) (key : String)
    (run : OperationRecord) : Prop where
  lookup : reserved.main.operations.lookup key = some run
  terminal : run.terminal = none
  kind : run.kind = .validation
  fresh : before.main.nextSequence < run.sequence
  generation : reserved.main.generation = run.generation
  calm : ∀ moment ∈ later ++ [reserved], Calm run.generation moment

/-- The run was reserved at one of these moments. -/
def PendingRun (moments : List Files) (key : String) (run : OperationRecord) : Prop :=
  ∃ later reserved before earlier, moments = later ++ reserved :: before :: earlier ∧
    ReservedRun later reserved before key run

def CleanRun (moments : List Files) (key targetDigest contractDigest : String) (generation : Nat) :
    Prop :=
  ∃ later reserved before earlier operationKey run execution disposition,
    moments = later ++ reserved :: before :: earlier ∧
      ReservedRun later reserved before operationKey run ∧ run.sessionKey = key ∧
      run.targetDigest = some targetDigest ∧ run.contractDigest = some contractDigest ∧
      run.generation = generation ∧ StoredExecution.clean execution ∧
      ∃ moment ∈ later, moment.main.operations.lookup operationKey =
        some (run.settle execution disposition)

/-- The last moment is calm, as all since the reservation. -/
theorem ReservedRun.calm_head {later earlier : List Files} {reserved before : Files}
    {run : OperationRecord} (h : ReservedRun later reserved before key run)
    (hmoments : files :: past = later ++ reserved :: before :: earlier) :
    Calm run.generation files := by
  refine h.calm files ?_
  cases later with
  | nil =>
    cases hmoments
    simp
  | cons moment later =>
    cases hmoments
    simp

theorem ReservedRun.cons {later earlier : List Files} {reserved before : Files} {key : String}
    {run : OperationRecord} {strict : Prop} (h : ReservedRun later reserved before key run)
    (hmoments : files :: past = later ++ reserved :: before :: earlier)
    (hrun : run.generation = files.main.generation) (hchange : Change strict files files')
    (hsame : files'.main.generation = files.main.generation) :
    ReservedRun (files' :: later) reserved before key run where
  lookup := h.lookup
  terminal := h.terminal
  kind := h.kind
  fresh := h.fresh
  generation := h.generation
  calm moment hmem := by
    rcases List.mem_cons.mp hmem with rfl | hmem
    · have hcalm := h.calm_head hmoments
      rw [hrun] at hcalm ⊢
      exact hcalm.change hchange hsame
    · exact h.calm moment hmem

theorem PendingRun.cons {key : String} {run : OperationRecord} {strict : Prop}
    (h : PendingRun (files :: past) key run) (hrun : run.generation = files.main.generation)
    (hchange : Change strict files files')
    (hsame : files'.main.generation = files.main.generation) :
    PendingRun (files' :: files :: past) key run := by
  obtain ⟨later, reserved, before, earlier, hmoments, hreserved⟩ := h
  exact ⟨files' :: later, reserved, before, earlier, by rw [hmoments]; rfl,
    hreserved.cons hmoments hrun hchange hsame⟩

theorem CleanRun.cons {key targetDigest contractDigest : String} {strict : Prop}
    (h : CleanRun (files :: past) key targetDigest contractDigest files.main.generation)
    (hchange : Change strict files files')
    (hsame : files'.main.generation = files.main.generation) :
    CleanRun (files' :: files :: past) key targetDigest contractDigest files.main.generation := by
  obtain ⟨later, reserved, before, earlier, operationKey, run, execution, disposition, hmoments,
    hreserved, hsession, htarget, hcontract, hgeneration, hclean, moment, hmem, hended⟩ := h
  exact ⟨files' :: later, reserved, before, earlier, operationKey, run, execution, disposition,
    by rw [hmoments]; rfl, hreserved.cons hmoments hgeneration hchange hsame, hsession, htarget,
    hcontract, hgeneration, hclean, moment, by simp [hmem], hended⟩

/-! ## The invariant -/

def Agree (main : State) : Prop :=
  ∀ key digest target, main.target key digest = some target → ∀ operationKey operation,
    main.operations.lookup operationKey = some operation → operation.kind = .validation →
      operation.sequence = target.attemptSequence →
        operation.sessionKey = key ∧ operation.targetDigest = some digest ∧
          operation.contractDigest = some target.contractDigest

/-- At the current generation, every run under way and every success is accounted for. -/
structure Accounted (files : Files) (past : List Files) : Prop where
  bounded : Bounded files
  runGenerations : ∀ key operation, files.main.operations.lookup key = some operation →
    operation.kind = .validation → operation.generation ≤ files.main.generation
  targetGenerations : ∀ key digest target, files.main.target key digest = some target →
    target.generation ≤ files.main.generation
  agree : Agree files.main
  runs : ∀ key operation, files.main.operations.lookup key = some operation →
    operation.kind = .validation → operation.terminal = none →
      operation.generation = files.main.generation → PendingRun (files :: past) key operation
  successes : ∀ key digest target, files.main.target key digest = some target →
    target.status = .success → target.generation = files.main.generation →
      CleanRun (files :: past) key digest target.contractDigest files.main.generation

section
variable {strict : Prop}

/-- A run that was there is still accounted for. -/
theorem Accounted.run (h : Accounted files past) (hchange : Change strict files files')
    (hlookup : files.main.operations.lookup key = some operation)
    (hkind : operation.kind = .validation) (hterminal : operation.terminal = none)
    (hcurrent : operation.generation = files'.main.generation) :
    PendingRun (files' :: files :: past) key operation := by
  have hbefore := h.runGenerations key operation hlookup hkind
  have hle := hchange.generation_le
  have hsame : files'.main.generation = files.main.generation := by omega
  exact (h.runs key operation hlookup hkind hterminal (hcurrent.trans hsame)).cons
    (hcurrent.trans hsame) hchange hsame

theorem Accounted.success (h : Accounted files past) (hchange : Change strict files files')
    {digest : String} {target : TargetState}
    (hlookup : files.main.target key digest = some target) (hstatus : target.status = .success)
    (hcurrent : target.generation = files'.main.generation) :
    CleanRun (files' :: files :: past) key digest target.contractDigest
      files'.main.generation := by
  have hbefore := h.targetGenerations key digest target hlookup
  have hle := hchange.generation_le
  have hsame : files'.main.generation = files.main.generation := by omega
  have hclean := h.successes key digest target hlookup hstatus (hcurrent.trans hsame)
  rw [hsame]
  exact hclean.cons hchange hsame

/-- A change that makes no validation run and no target. -/
theorem Accounted.of_old (h : Accounted files past) (hchange : Change strict files files')
    (hoperations : ∀ key operation, files'.main.operations.lookup key = some operation →
      operation.kind = .validation → files.main.operations.lookup key = some operation)
    (htargets : files'.main.TargetsWithin files.main) :
    Accounted files' (files :: past) where
  bounded := h.bounded.change hchange
  runGenerations key operation hlookup hkind :=
    (h.runGenerations key operation (hoperations key operation hlookup hkind) hkind).trans
      hchange.generation_le
  targetGenerations key digest target hlookup :=
    (h.targetGenerations key digest target (htargets key digest target hlookup)).trans
      hchange.generation_le
  agree key digest target hlookup operationKey operation hoperation hkind :=
    h.agree key digest target (htargets key digest target hlookup) operationKey operation
      (hoperations operationKey operation hoperation hkind) hkind
  runs key operation hlookup hkind := h.run hchange (hoperations key operation hlookup hkind) hkind
  successes key digest target hlookup := h.success hchange (htargets key digest target hlookup)

theorem State.Adds.old_validation {main₀ : State} {key' : String}
    {record : OperationRecord} (h : main.Adds main₀ key record)
    (hrecord : record.kind ≠ .validation) (hlookup : main.operations.lookup key' = some operation)
    (hkind : operation.kind = .validation) :
    main₀.operations.lookup key' = some operation := by
  rcases h.operations key' operation hlookup with ⟨-, rfl⟩ | hold
  · exact absurd hkind hrecord
  · exact hold

end

theorem Accounted.change (h : Accounted files past) (hchange : Change True files files') :
    Accounted files' (files :: past) := by
  have hkept := hchange
  cases hchange with
  | shrink hwithin =>
    exact h.of_old hkept (fun key operation hlookup _ =>
      hwithin.operations key operation hlookup) hwithin.targets
  | edit _ _ _ hadds htargets hkind =>
    exact h.of_old hkept (fun key operation => hadds.old_validation (by simp [hkind])) htargets
  | shell _ _ _ hadds htargets hkind =>
    exact h.of_old hkept (fun key operation => hadds.old_validation (by simp [hkind])) htargets
  | accept | reserveMutation | admitMutation | admitValidator | completion =>
    exact h.of_old hkept (fun _ _ hlookup _ => hlookup) fun _ _ _ htarget => htarget
  | @validation main key record hmutation hshell hgeneration hadds hkind hterminal hrecord htargets =>
    have hcalm : Calm files.main.generation files := NoMutation.calm ⟨hmutation, hshell trivial⟩ _
    refine ⟨h.bounded.change hkept, fun key' operation hlookup hvalidation => ?_,
      fun key' digest target htarget => ?_, fun key' digest target htarget operationKey operation
        hlookup hvalidation hattempt => ?_, fun key' operation hlookup hvalidation hopen hcurrent => ?_,
      fun key' digest target htarget hstatus hcurrent => ?_⟩
    · rcases hadds.operations key' operation hlookup with ⟨-, rfl⟩ | hold
      · exact hrecord.le
      · exact (h.runGenerations key' operation hold hvalidation).trans hgeneration.ge
    · rcases htargets key' digest target htarget with hold | ⟨-, -, -, hsame, -⟩
      · exact (h.targetGenerations key' digest target hold).trans hgeneration.ge
      · exact (hsame.trans hrecord).le
    · have hfresh := hadds.fresh
      rcases hadds.operations operationKey operation hlookup with ⟨-, rfl⟩ | holdOperation
      · rcases htargets key' digest target htarget with hold | ⟨rfl, hdigest, hcontract, -⟩
        · have hbound := h.bounded.targets key' digest target hold
          omega
        · exact ⟨rfl, hdigest, hcontract⟩
      · rcases htargets key' digest target htarget with hold | ⟨-, -, -, -, hnew, -⟩
        · exact h.agree key' digest target hold operationKey operation holdOperation hvalidation
            hattempt
        · have hbound := h.bounded.operations operationKey operation holdOperation
          omega
    · rcases hadds.operations key' operation hlookup with ⟨rfl, rfl⟩ | hold
      · refine ⟨[], _, files, past, rfl, hadds.added, hterminal, hkind, hadds.fresh, hrecord.symm,
          fun moment hmem => ?_⟩
        rw [List.nil_append, List.mem_singleton] at hmem
        rw [hmem, hrecord.trans hgeneration]
        exact hcalm.change hkept hgeneration
      · exact h.run hkept hold hvalidation hopen hcurrent
    · rcases htargets key' digest target htarget with hold | ⟨-, -, -, -, -, hpending⟩
      · exact h.success hkept hold hstatus hcurrent
      · cases hpending.symm.trans hstatus
  | @complete main key record execution disposition hrecord hterminal hgeneration hsequence
      hoperations htargets hsettled =>
    refine ⟨h.bounded.change hkept, fun key' operation hlookup hvalidation => ?_,
      fun key' digest target htarget => ?_, fun key' digest target htarget operationKey operation
        hlookup hvalidation hattempt => ?_, fun key' operation hlookup hvalidation hopen hcurrent => ?_,
      fun key' digest target htarget hstatus hcurrent => ?_⟩
    · rcases hoperations key' operation hlookup with ⟨-, rfl⟩ | ⟨-, hold⟩
      · exact (h.runGenerations key record hrecord hvalidation).trans hgeneration.ge
      · exact (h.runGenerations key' operation hold hvalidation).trans hgeneration.ge
    · rcases htargets key' digest target htarget with hold | ⟨old, hold, -, -, -, -, ⟨_, rfl⟩, -⟩
      · exact (h.targetGenerations key' digest target hold).trans hgeneration.ge
      · exact (h.targetGenerations key' digest old hold).trans hgeneration.ge
    · have hagree : ∀ old : TargetState, files.main.target key' digest = some old →
          old.attemptSequence = target.attemptSequence →
          old.contractDigest = target.contractDigest →
          operation.sessionKey = key' ∧ operation.targetDigest = some digest ∧
            operation.contractDigest = some target.contractDigest := by
        intro old hold hsame hcontract
        rw [← hcontract]
        rcases hoperations operationKey operation hlookup with ⟨-, rfl⟩ | ⟨-, holdOperation⟩
        · exact h.agree key' digest old hold key record hrecord hvalidation (hattempt.trans hsame.symm)
        · exact h.agree key' digest old hold operationKey operation holdOperation hvalidation
            (hattempt.trans hsame.symm)
      rcases htargets key' digest target htarget with hold | ⟨old, hold, -, -, -, -, ⟨_, rfl⟩, -⟩
      · exact hagree target hold rfl rfl
      · exact hagree old hold rfl rfl
    · rcases hoperations key' operation hlookup with ⟨-, rfl⟩ | ⟨-, hold⟩
      · cases hopen
      · exact h.run hkept hold hvalidation hopen hcurrent
    · rcases htargets key' digest target htarget with hold | ⟨old, hold, hkind, hrecordCurrent, -,
        hattempt, ⟨status, rfl⟩, hclean⟩
      · exact h.success hkept hold hstatus hcurrent
      · obtain ⟨hsession, hdigest, hcontract⟩ :=
          h.agree key' digest old hold key record hrecord hkind hattempt.symm
        obtain ⟨later, reserved, before, earlier, hmoments, hreserved⟩ :=
          h.runs key record hrecord hkind hterminal hrecordCurrent
        exact ⟨_ :: later, reserved, before, earlier, key, record, execution, disposition,
          by rw [hmoments]; rfl, hreserved.cons hmoments hrecordCurrent hkept hgeneration, hsession,
          hdigest, hcontract, hrecordCurrent.trans hgeneration.symm, hclean hstatus, _,
          List.mem_cons_self, hsettled⟩

/-! ## Runs -/

theorem orderly_accounted (h : (orderlyFinishLine host).Reach w) :
    Accounted w.files w.past := by
  refine orderly_reach_keeps (J := Accounted) (fun _ _ _ h hchange => h.change hchange) ?_ h
  refine ⟨(pastBounded_start _ (by simp)).1, ?_, ?_, ?_, ?_, ?_⟩
  · rintro key operation ⟨⟩
  · rintro key digest target ⟨⟩
  · rintro key digest target ⟨⟩
  · rintro key operation ⟨⟩
  · rintro key digest target ⟨⟩

/-- Where validation runs are only reserved while no shell command is under way: a session that may
stop has, for every target of the contract, a clean run of the current generation, and nothing has
mutated beside it. -/
theorem stop_is_sound {w : World} (h : (orderlyFinishLine host).Reach w) {key : String}
    {snapshot : ContractSnapshot} (hgeneration : 0 < w.files.main.generation)
    (hstop : stopAllows w.files.main key snapshot) :
    ∀ target ∈ snapshot.targets, CleanRun w.moments key target.targetDigest target.contractDigest
      w.files.main.generation := by
  intro target hmem
  have hallowed := hstop
  unfold stopAllows at hallowed
  dsimp only at hallowed
  rw [if_pos (by simp [hgeneration]), Bool.and_eq_true, List.all_eq_true] at hallowed
  have hsatisfied := hallowed.2 target hmem
  unfold targetSatisfied at hsatisfied
  rw [Option.any_eq_true] at hsatisfied
  obtain ⟨state, hstate, hcurrent⟩ := hsatisfied
  simp only [Bool.and_eq_true, decide_eq_true_eq] at hcurrent
  obtain ⟨⟨hgenerationCurrent, hcontract⟩, hstatus⟩ := hcurrent
  have hclean := (orderly_accounted h).successes key target.targetDigest state hstate hstatus
    hgenerationCurrent
  rwa [hcontract] at hclean

def orderlyNext (w : World) (sample : SampleCall) : Option World :=
  if w.files.main.shellActive then none else sampleNext w sample

theorem orderlyNext_step {w' : World} {sample : SampleCall}
    (h : orderlyNext w sample = some w') : ∃ l, (orderlyFinishLine sampleHost).step l w w' := by
  unfold orderlyNext at h
  split at h
  · cases h
  · rename_i hidle
    obtain ⟨call, -, hstep⟩ := sampleNext_step h
    refine ⟨(call, 10), ?_, hstep⟩
    cases call with
    | validate => exact Bool.eq_false_iff.mpr hidle
    | _ => trivial

/-- A validation run after an edit, as part of a run without shell commands. -/
theorem stop_is_sound_sample : CleanRun (sampleWorld [.open, .edit, .validate, .validated]).moments
    "s" "d" "k" 1 := by
  have hreach : (orderlyFinishLine sampleHost).Reach
      (sampleWorld [.open, .edit, .validate, .validated]) :=
    Lts.Reach.of_foldlM (S := orderlyFinishLine sampleHost) (f := orderlyNext)
      (fun _ _ _ h => orderlyNext_step h)
      (show [SampleCall.open, .edit, .validate, .validated].foldlM orderlyNext World.start =
        some (sampleWorld [.open, .edit, .validate, .validated]) by decide) (.init rfl)
  have hstop : stopAllows (sampleWorld [.open, .edit, .validate, .validated]).files.main "s"
    sampleSnapshot := by decide
  exact stop_is_sound hreach (by decide) hstop sampleTarget (by decide)

/-- A validation run that is reserved and ends beside a shell command lets the session stop. -/
theorem stop_beside_shell : ¬ ∀ w, (finishLine sampleHost).Reach w → ∀ key snapshot,
    0 < (World.files w).main.generation → stopAllows (World.files w).main key snapshot →
      ∀ target ∈ snapshot.targets, CleanRun (World.moments w) key target.targetDigest
        target.contractDigest (World.files w).main.generation := by
  intro hclaim
  have hreach := sampleWorld_reach [.open, .shell, .validate, .validated] (by decide)
  obtain ⟨later, reserved, before, earlier, operationKey, run, execution, disposition, hmoments,
    hreserved, -⟩ := hclaim _ hreach "s" sampleSnapshot (by decide) (by decide)
      sampleTarget (by decide)
  -- every moment with a validation run has the shell command as well
  have hbeside : ∀ moment ∈ (sampleWorld [.open, .shell, .validate, .validated]).moments,
      moment.main.shellActive ∨ ∀ operation ∈ moment.main.operations.values,
        operation.kind ≠ .validation := by decide
  have hcalm := State.shellActive_eq_false.mpr (hreserved.calm reserved (by simp)).shells
  rcases hbeside reserved (by rw [hmoments]; simp) with hactive | hnone
  · rw [hcalm] at hactive
    cases hactive
  · exact hnone run (Table.mem_values_iff.mpr ⟨operationKey, hreserved.lookup⟩) hreserved.kind

end NilsCli.FinishLine
