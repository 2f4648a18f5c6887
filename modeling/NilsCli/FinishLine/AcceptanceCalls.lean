import NilsCli.FinishLine.Calls

/-!
# What each acceptance call writes

Registrations, admissions, observations and verdicts, and the failures of contained runs, as changes
of the files.
-/

namespace NilsCli.FinishLine

open Lib
open Durable (Keeps Writes)

variable {taken : AcceptanceState} {source requirement validatorId capabilityDigest : String}

variable {key operationKey contractDigest : String} {session : AcceptanceSession}
  {generation sequence : Nat} {operation : AcceptanceOperation} {main : State}

variable (host : Host) {strict : Prop} {files : Files}
  {succeeds : String → AcceptanceOperation → Prop}

variable (authentic : OwnerProcess → Bool) (identity : RequestIdentity) (capability : String)

/-! ## Fewer rows -/

structure AcceptanceState.Sub (acceptance acceptance₀ : AcceptanceState) : Prop where
  nextSequence : acceptance₀.nextSequence ≤ acceptance.nextSequence
  operations : ∀ key operation, acceptance.operations.lookup key = some operation →
    acceptance₀.operations.lookup key = some operation
  opened : ∀ key operation, acceptance₀.operations.lookup key = some operation →
    operation.terminal = none → acceptance.operations.lookup key = some operation
  sessions : ∀ key session, acceptance.sessions.lookup key = some session → ∃ old,
    acceptance₀.sessions.lookup key = some old ∧ session.contract = old.contract ∧
      session.contractDigest = old.contractDigest ∧ session.evidence = old.evidence

section
variable {acceptance acceptance' acceptance₀ : AcceptanceState}

theorem AcceptanceState.Sub.refl (acceptance : AcceptanceState) : acceptance.Sub acceptance :=
  ⟨Nat.le_refl _, fun _ _ h => h, fun _ _ h _ => h, fun _ session h => ⟨session, h, rfl, rfl, rfl⟩⟩

theorem AcceptanceState.Sub.trans (h : acceptance.Sub acceptance')
    (h' : acceptance'.Sub acceptance₀) : acceptance.Sub acceptance₀ where
  nextSequence := h'.nextSequence.trans h.nextSequence
  operations key operation hlookup :=
    h'.operations key operation (h.operations key operation hlookup)
  opened key operation hlookup hterminal :=
    h.opened key operation (h'.opened key operation hlookup hterminal) hterminal
  sessions key session hlookup := by
    obtain ⟨old, hold, hcontract, hdigest, hevidence⟩ := h.sessions key session hlookup
    obtain ⟨old', hold', hcontract', hdigest', hevidence'⟩ := h'.sessions key old hold
    exact ⟨old', hold', hcontract.trans hcontract', hdigest.trans hdigest',
      hevidence.trans hevidence'⟩

/-- Sessions over fewer rows are old sessions. -/
theorem AcceptanceState.Sub.oldSession
    (h : acceptance.Sub files.acceptance) (hlookup : acceptance.sessions.lookup key = some session) :
    OldSession files succeeds key session := by
  obtain ⟨old, hold, hcontract, hdigest, hevidence⟩ := h.sessions key session hlookup
  refine .inr ⟨old, hold, hcontract, hdigest, fun _ _ h => .inl ?_⟩
  rwa [← hevidence]

theorem AcceptanceState.Sub.within (h : acceptance.Sub files.acceptance) :
    acceptance.WithinOf succeeds files where
  nextSequence := h.nextSequence
  operations key operation hlookup := .refl (h.operations key operation hlookup)
  reserved key operation hlookup _ hterminal _ := h.opened key operation hlookup hterminal
  sessions _ _ hlookup := h.oldSession hlookup

theorem AcceptanceState.compactSources_sub (generation : Nat) (acceptance : AcceptanceState) :
    (acceptance.compactSources generation).Sub acceptance where
  nextSequence := Nat.le_refl _
  operations _ _ h := h
  opened _ _ h _ := h
  sessions key session h := by
    unfold AcceptanceState.compactSources at h
    rw [Table.lookup_mapVal, Option.map_eq_some_iff] at h
    obtain ⟨old, hold, rfl⟩ := h
    refine ⟨old, hold, ?_⟩
    split
    · split <;> exact ⟨rfl, rfl, rfl⟩
    · exact ⟨rfl, rfl, rfl⟩

theorem AcceptanceState.compact_keeps (h : acceptance.operations.lookup key = some operation)
    (hterminal : operation.terminal = none) :
    (acceptance.compact generation).operations.lookup key = some operation := by
  unfold AcceptanceState.compact
  dsimp only
  split
  · exact h
  · have hsources : (acceptance.compactSources generation).operations.lookup key =
      some operation := h
    exact lookup_of_not_selected hsources (by simp [hterminal])

theorem AcceptanceState.compact_sub (generation : Nat) (acceptance : AcceptanceState) :
    (acceptance.compact generation).Sub acceptance where
  nextSequence := by
    have hsame : (acceptance.compact generation).nextSequence = acceptance.nextSequence := by
      unfold AcceptanceState.compact
      dsimp only
      split <;> rfl
    exact hsame.ge
  operations key operation h := by
    unfold AcceptanceState.compact at h
    dsimp only at h
    split at h
    · exact h
    · rw [Table.lookup_filter, Option.filter_eq_some_iff] at h
      exact h.1
  opened _ _ h hterminal := AcceptanceState.compact_keeps h hterminal
  sessions key session h := by
    refine (acceptance.compactSources_sub generation).sessions key session ?_
    unfold AcceptanceState.compact at h
    dsimp only at h
    split at h <;> exact h

/-- Nothing of the session is under way. -/
def Quiet (key : String) (acceptance : AcceptanceState) : Prop :=
  ∀ operationKey operation, acceptance.operations.lookup operationKey = some operation →
    operation.sessionKey = key → operation.terminal ≠ none

theorem AcceptanceState.dropSession_sub (hquiet : Quiet key acceptance) :
    (acceptance.dropSession key).Sub acceptance where
  nextSequence := Nat.le_refl _
  operations _ _ h := lookup_of_filter h
  opened operationKey operation h hterminal := by
    unfold AcceptanceState.dropSession
    rw [Table.lookup_filter, h, Option.filter_some, if_pos]
    rw [decide_eq_true_eq]
    exact fun hkey => hquiet operationKey operation h hkey hterminal
  sessions key' session h := by
    unfold AcceptanceState.dropSession at h
    by_cases hkey : key' = key
    · subst hkey
      rw [AList.lookup_erase] at h
      cases h
    · rw [AList.lookup_erase_ne hkey] at h
      exact ⟨session, h, rfl, rfl, rfl⟩

theorem dropUntilFits_sub (keys : List String) (acceptance : AcceptanceState)
    (hquiet : ∀ key ∈ keys, Quiet key acceptance) :
    (dropUntilFits host keys acceptance).Sub acceptance := by
  induction keys generalizing acceptance with
  | nil => exact .refl acceptance
  | cons key keys ih =>
    have hdrop := AcceptanceState.dropSession_sub (hquiet key (by simp))
    unfold dropUntilFits
    dsimp only
    split
    · refine (ih _ fun key' hkey' operationKey operation h => ?_).trans hdrop
      exact hquiet key' (by simp [hkey']) operationKey operation (lookup_of_filter h)
    · exact hdrop

theorem AcceptanceState.compactReleased_sub (active : Table String SessionState)
    (acceptance : AcceptanceState) : (acceptance.compactReleased host active).Sub acceptance := by
  unfold AcceptanceState.compactReleased
  split
  · refine dropUntilFits_sub host _ acceptance fun key hkey operationKey operation h hsession => ?_
    obtain ⟨session, hreleased, -⟩ := mem_oldestKeys hkey
    rw [Table.lookup_filter, Option.filter_eq_some_iff] at hreleased
    obtain ⟨-, hidle⟩ := hreleased
    rw [Bool.and_eq_true, Bool.not_eq_true', List.any_eq_false] at hidle
    intro hterminal
    exact hidle.2 operation (Table.mem_values_iff.mpr ⟨operationKey, h⟩)
      (by simp [hsession, hterminal])
  · exact .refl acceptance

end

/-! ## Registration -/

theorem AcceptanceState.takeSequence_ok {acceptance acceptance' : AcceptanceState}
    (h : acceptance.takeSequence = .ok (sequence, acceptance')) :
    sequence = acceptance.nextSequence + 1 ∧
      acceptance' = { acceptance with nextSequence := sequence } := by
  unfold AcceptanceState.takeSequence at h
  rw [bind_eq_ok] at h
  obtain ⟨sequence', hsequence, h⟩ := h
  cases h
  exact ⟨checkedSucc_ok hsequence, rfl⟩

theorem OldSession.congr {old : AcceptanceSession}
    (h : OldSession files succeeds key old) (hcontract : session.contract = old.contract)
    (hdigest : session.contractDigest = old.contractDigest)
    (hevidence : session.evidence = old.evidence) : OldSession files succeeds key session := by
  rcases h with h | ⟨before, hbefore, hcontract', hdigest', h⟩
  · exact .inl (hevidence.trans h)
  · refine .inr ⟨before, hbefore, hcontract.trans hcontract', hdigest.trans hdigest', ?_⟩
    rwa [hevidence]

theorem AcceptanceState.Sub.oldSessions {acceptance acceptance' : AcceptanceState}
    (h : acceptance.Sub acceptance')
    (hsessions : ∀ key session, acceptance'.sessions.lookup key = some session →
      OldSession files succeeds key session)
    (hlookup : acceptance.sessions.lookup key = some session) : OldSession files succeeds key session := by
  obtain ⟨old, hold, hcontract, hdigest, hevidence⟩ := h.sessions key session hlookup
  exact (hsessions key old hold).congr hcontract hdigest hevidence

/-- Fewer rows of a file in which one session has changed. -/
theorem within_of_insert {acceptance : AcceptanceState}
    (hsub : acceptance.Sub { taken with sessions := taken.sessions.insert key session })
    (htaken : taken.Sub files.acceptance) (hsession : OldSession files succeeds key session) :
    acceptance.WithinOf succeeds files where
  nextSequence := htaken.nextSequence.trans hsub.nextSequence
  operations key' operation h := .refl (htaken.operations key' operation
    (hsub.operations key' operation h))
  reserved key' operation h _ hterminal _ :=
    hsub.opened key' operation (htaken.opened key' operation h hterminal) hterminal
  sessions key' found h := by
    refine hsub.oldSessions (fun key'' old hold => ?_) h
    rcases lookup_insert_cases hold with ⟨rfl, rfl⟩ | ⟨-, hold⟩
    · exact hsession
    · exact htaken.oldSession hold

theorem AcceptanceState.takeSequence_sub {acceptance acceptance' : AcceptanceState}
    (h : acceptance.takeSequence = .ok (sequence, acceptance')) : acceptance'.Sub acceptance := by
  obtain ⟨rfl, rfl⟩ := AcceptanceState.takeSequence_ok h
  exact ⟨Nat.le_succ _, fun _ _ h => h, fun _ _ h _ => h,
    fun _ session h => ⟨session, h, rfl, rfl, rfl⟩⟩

theorem register_writes (contract : AcceptanceContract) (contractDigest : String) :
    Writes (Change strict) files
      (register host authentic identity capability contract contractDigest) := by
  unfold register
  refine .load_bind ?_
  dsimp only
  refine .lift_bind fun _ _ => .lift_bind fun _ _ => ?_
  refine terminalizeOrphans_bind fun acceptance _ => .load_bind ?_
  have hsources := acceptance.compactSources_sub files.main.generation
  split
  · rename_i existing hexisting
    refine .ite (fun _ => ?_) fun _ => .lift _
    refine .lift_bind fun ⟨sequence, taken⟩ htake => .write_bind (.accept ?_) (.ret _)
    have htaken := (AcceptanceState.takeSequence_sub htake).trans hsources
    refine within_of_insert (AcceptanceState.compactReleased_sub host _ _) htaken ?_
    exact OldSession.congr (hsources.oldSession hexisting) rfl rfl rfl
  · refine .lift_bind fun ⟨sequence, taken⟩ htake => .lift_bind fun _ _ => ?_
    refine .write_bind (.accept ?_) (.ret _)
    have htaken := (AcceptanceState.takeSequence_sub htake).trans hsources
    exact within_of_insert (AcceptanceState.compactReleased_sub host _ _) htaken (.inl rfl)

/-! ## Observation -/

theorem settleEvidence_cases {session : Option AcceptanceSession}
    {status : RequirementStatus} {s : AcceptanceSession}
    (h : (settleEvidence main session operation status).2 = some s) :
    session = some s ∨ ∃ old requirement validatorId evidence, session = some old ∧
      operation.generation = main.generation ∧
      operation.kind = .validator requirement validatorId ∧
      old.evidence.lookup requirement = some evidence ∧
      evidence.generation = operation.generation ∧
      evidence.contractDigest = operation.contractDigest ∧
      evidence.attemptSequence = operation.sequence ∧
      s = { old with evidence := old.evidence.insert requirement { evidence with status } } := by
  unfold settleEvidence at h
  split at h
  · exact .inl h
  · rename_i hgeneration
    rw [not_not] at hgeneration
    split at h
    · rename_i requirement validatorId hkind
      split at h
      · rename_i old evidence hbind
        rw [Option.bind_eq_some_iff] at hbind
        obtain ⟨found, hfound, hbind⟩ := hbind
        rw [Option.map_eq_some_iff] at hbind
        obtain ⟨found', hfound', heq⟩ := hbind
        cases heq
        split at h
        · rename_i hsame
          exact .inr ⟨old, requirement, validatorId, evidence, hfound, hgeneration, hkind, hfound',
            hsame.1, hsame.2.1, hsame.2.2, (Option.some.inj h).symm⟩
        · exact .inl h
      · exact .inl h
    · exact .inl h

theorem settle_within {acceptance : AcceptanceState} {sourceDigest : String}
    {observation : ObservationStatus} (hwithin : acceptance.WithinOf succeeds files)
    (hoperation : files.acceptance.operations.lookup operationKey = some operation)
    (hterminal : operation.terminal = none) (hadmitted : operation.admission = .admitted)
    (hmay : observation = .succeeded → MaySucceed files operation)
    (hsuccess : observation = .succeeded → succeeds operationKey operation) :
    (acceptance.settle files.main operationKey operation observation sourceDigest).WithinOf
      succeeds files where
  nextSequence := hwithin.nextSequence
  operations key found h := by
    unfold AcceptanceState.settle at h
    rcases lookup_insert_cases h with ⟨rfl, rfl⟩ | ⟨-, hold⟩
    · exact ⟨operation, hoperation, .inr ⟨hterminal, fun _ => hadmitted, _, rfl, hmay⟩⟩
    · exact hwithin.operations key found hold
  reserved key found hlookup hkind hopen hreserved := by
    unfold AcceptanceState.settle
    have hkey : key ≠ operationKey := by
      rintro rfl
      cases hlookup.symm.trans hoperation
      cases hreserved.symm.trans hadmitted
    exact (AList.lookup_insert_ne hkey).trans (hwithin.reserved key found hlookup hkind hopen hreserved)
  sessions key session h := by
    unfold AcceptanceState.settle at h
    dsimp only at h
    split at h
    · rename_i settled hsettled
      rcases lookup_insert_cases h with ⟨rfl, rfl⟩ | ⟨-, hold⟩
      · rcases settleEvidence_cases hsettled with hsame | ⟨old, requirement, validatorId, evidence,
          hold, hgeneration, hkind, hevidence, hsame, hdigest, hattempt, rfl⟩
        · exact hwithin.sessions _ _ hsame
        · rcases hwithin.sessions _ _ hold with hempty | ⟨before, hbefore, hcontract, hdigest', hsub⟩
          · rw [hempty] at hevidence
            cases hevidence
          · refine .inr ⟨before, hbefore, hcontract, hdigest', fun requirement' found hfound => ?_⟩
            rcases lookup_insert_cases hfound with ⟨rfl, rfl⟩ | ⟨-, hfound⟩
            · have hobserved : ∀ oldEvidence : RequirementEvidence,
                  oldEvidence.generation = evidence.generation →
                  oldEvidence.contractDigest = evidence.contractDigest →
                  oldEvidence.attemptSequence = evidence.attemptSequence →
                  oldEvidence.validatorId = evidence.validatorId →
                  ObservedEvidence files succeeds operation.sessionKey requirement' oldEvidence
                    { evidence with status := observation.requirementStatus } := by
                intro oldEvidence h₁ h₂ h₃ h₄
                refine ⟨operationKey, operation, validatorId, observation, hoperation, rfl, hkind,
                  hterminal, hgeneration, h₁.trans hsame, h₂.trans hdigest, h₃.trans hattempt, ?_,
                  hsuccess⟩
                cases oldEvidence
                cases evidence
                simp_all
              rcases hsub requirement' evidence hevidence with hkept | ⟨first, hfirst, hseen⟩
              · exact .inr ⟨evidence, hkept, hobserved evidence rfl rfl rfl rfl⟩
              · obtain ⟨_, _, _, _, _, _, _, _, _, _, _, _, rfl, _⟩ := hseen
                exact .inr ⟨first, hfirst, hobserved first rfl rfl rfl rfl⟩
            · exact hsub requirement' found hfound
      · exact hwithin.sessions key session hold
    · exact hwithin.sessions key session h

theorem deriveContained_succeeded {targetDigest : String}
    (h : deriveContained main operation targetDigest contractDigest source = .ok .succeeded)
    (hsource : operation.sourceOperationKey = some source)
    (hgeneration : operation.generation ≤ main.generation) :
    RunSucceeded main operation targetDigest contractDigest := by
  unfold deriveContained at h
  split at h
  · cases h
  · rename_i hnot
    rw [orErr_bind_ok] at h
    obtain ⟨run, hrun, h⟩ := h
    rw [ensure_bind_ok] at h
    obtain ⟨⟨hsession, hkind, hsame, htarget, hcontract⟩, h⟩ := h
    rw [orErr_bind_ok] at h
    obtain ⟨terminal, hterminal, h⟩ := h
    rw [ensure_bind_ok] at h
    obtain ⟨hdisposition, h⟩ := h
    rw [orErr_bind_ok] at h
    obtain ⟨facts, hfacts, h⟩ := h
    exact ⟨by omega, source, run, terminal, facts, hsource, hrun, hsession, hkind, hsame, htarget,
      hcontract, hterminal, hdisposition, hfacts, Except.ok.inj h⟩

theorem observe_writes (operationId : String) (observation : Observation) :
    Writes (Change strict) files
      (observe host authentic identity capability operationId observation) := by
  unfold observe
  refine .load_bind ?_
  dsimp only
  refine .lift_bind fun _ _ => .lift_bind fun acceptance hread => .lift_bind fun existing hfound => ?_
  refine .lift_bind fun _ hsession => .lift_bind fun _ hadmitted => ?_
  refine .lift_bind fun execution hexecution => ?_
  refine .lift_bind fun ⟨sourceDigest, stated, source⟩ hbinding => .lift_bind fun _ hsource => ?_
  rw [orErr_eq_ok] at hfound
  obtain rfl := readAcceptance_ok hread
  split
  · exact .lift_bind fun _ _ => .ret _
  · rename_i hterminal
    refine .lift_bind fun observed hobserved => .write_bind (.accept ?_) (.ret _)
    have hkey := (ensure_eq_ok.mp hsession).1
    suffices hmay : observed = .succeeded → MaySucceed files existing by
      refine settle_within (.refl files) hfound hterminal (ensure_eq_ok.mp hadmitted) hmay ?_
      rintro rfl
      refine ⟨⟨execution, by rwa [hkey]⟩, hmay rfl, _, AList.lookup_insert _, rfl⟩
    rintro rfl intent command targetDigest contractDigest hcontained hgeneration
    rw [hkey] at hcontained
    cases hexecution.symm.trans hcontained
    cases observation with
    | hostObserved status => cases hbinding
    | containedBash citedId blocked =>
      cases hbinding
      cases blocked with
      | true => cases hobserved
      | false =>
        have hcited := ensure_eq_ok.mp hsource
        exact deriveContained_succeeded hobserved (hcited.resolve_left (by simp)) hgeneration

/-! ## Infrastructure failures -/

theorem settleAll_within {rows : List (Sigma fun _ : String => AcceptanceOperation)}
    {acceptance : AcceptanceState} (h : acceptance.WithinOf succeeds files)
    (hrows : ∀ row ∈ rows, files.acceptance.operations.lookup row.1 = some row.2 ∧
      row.2.terminal = none ∧ row.2.admission = .admitted) :
    (rows.foldl (fun acceptance row =>
      acceptance.settle files.main row.1 row.2 .infrastructureBlocked source) acceptance).WithinOf
        succeeds files := by
  induction rows generalizing acceptance with
  | nil => exact h
  | cons row rows ih =>
    obtain ⟨hlookup, hterminal, hadmitted⟩ := hrows row (by simp)
    exact ih (settle_within h hlookup hterminal hadmitted nofun nofun)
      fun row' hrow' => hrows row' (by simp [hrow'])

theorem recordFailure_writes (key operationKey : String) (record : OperationRecord) :
    Writes (Change strict) files (recordFailure key operationKey record) := by
  unfold recordFailure
  refine .load_bind (.lift_bind fun capabilityDigest _ => .lift_bind fun acceptance hread => ?_)
  refine .lift_bind fun _ _ => .write (.accept ?_)
  obtain rfl := readAcceptance_ok hread
  refine settleAll_within (.refl files) fun row hrow => ?_
  obtain ⟨hlookup, hserved⟩ := Option.filter_eq_some_iff.mp
    ((Table.lookup_filter _ _ _).symm.trans (Table.lookup_eq_some_iff.mpr hrow))
  refine ⟨hlookup, ?_⟩
  unfold servedBy mayServe at hserved
  simp only [Bool.and_eq_true, decide_eq_true_eq, Option.isNone_iff_eq_none] at hserved
  simp [hserved]

/-- A failure is recorded in the acceptance file only. -/
theorem recordFailure_keeps (main : State) (key operationKey : String) (record : OperationRecord) :
    Keeps (fun files : Files => files.main = main)
      (recordFailure key operationKey record) := by
  unfold recordFailure
  refine .load_bind fun files hmain => ?_
  refine Durable.Keeps.at ?_ hmain
  exact .bind (.lift _) fun _ => .bind (.lift _) fun _ => .bind (.lift _) fun _ =>
    .write fun _ h => h

theorem failValidation_writes (reservation : Reservation) :
    Writes (Change strict) files (failValidation reservation) := by
  unfold failValidation
  exact .load_bind (.lift_bind fun _ _ => recordFailure_writes _ _ _)

theorem quiesceCheck_writes (operationId : String) : Writes (Change strict) files
      (quiesceCheck host authentic identity capability operationId) := by
  unfold quiesceCheck
  exact .load_bind (.lift_bind fun _ _ => .ret _)

theorem State.forget_within (main : State) (key operationKey : String) (record : OperationRecord) :
    (main.forget key operationKey record).Within main where
  generation := Nat.le_refl _
  nextSequence := Nat.le_refl _
  operations key' operation h := by
    unfold State.forget at h
    by_cases hkey : key' = operationKey
    · subst hkey
      rw [AList.lookup_erase] at h
      cases h
    · rwa [AList.lookup_erase_ne hkey] at h
  targets := by
    refine targets_of_sessions fun key' session hsession => ?_
    unfold State.forget at hsession
    dsimp only at hsession
    split at hsession
    · rw [Table.lookup_modify] at hsession
      split at hsession
      · rw [Option.map_eq_some_iff] at hsession
        obtain ⟨old, hold, rfl⟩ := hsession
        refine ⟨old, hold, fun digest target htarget => ?_⟩
        split at htarget
        · by_cases hdigest : digest = record.targetDigest.getD ""
          · subst hdigest
            rw [AList.lookup_erase] at htarget
            cases htarget
          · rwa [AList.lookup_erase_ne hdigest] at htarget
        · exact htarget
      · exact ⟨session, hsession, fun _ _ h => h⟩
    · exact ⟨session, hsession, fun _ _ h => h⟩

theorem quiesceCommit_writes (pending : Reservation) :
    Writes (Change strict) files (quiesceCommit pending) := by
  unfold quiesceCommit
  refine .load_bind ?_
  dsimp only
  refine .ite (fun _ => ?_) fun _ => Change.saveMain (.refl _)
  have hforget := files.main.forget_within pending.identity.sessionKey pending.operationKey
    pending.record
  refine .ite (fun _ => ?_) fun _ => Change.saveMain hforget
  refine .bind (recordFailure_writes _ _ _) fun _ _ => Change.saveMain ?_
  rw [(recordFailure_keeps files.main _ _ _).after rfl]
  exact hforget

/-! ## Admission -/

theorem State.shellActive_eq_false :
    main.shellActive = false ↔ ∀ key operation, main.operations.lookup key = some operation →
      operation.kind = .shell → operation.terminal ≠ none := by
  unfold State.shellActive
  rw [Table.any_values_eq_false]
  simp [Option.isSome_iff_ne_none]

theorem AcceptanceState.mutationActive_eq_false {acceptance : AcceptanceState} :
    acceptance.mutationActive = false ↔ ∀ key operation,
      acceptance.operations.lookup key = some operation → operation.kind = .mutation →
        operation.terminal ≠ none := by
  unfold AcceptanceState.mutationActive
  rw [Table.any_values_eq_false]
  simp [Option.isSome_iff_ne_none]

theorem mutationActive_of_compact {acceptance : AcceptanceState}
    (h : (acceptance.compact generation).mutationActive = false) :
    acceptance.mutationActive = false := by
  rw [AcceptanceState.mutationActive_eq_false] at h ⊢
  intro key operation hlookup hkind hterminal
  exact h key operation (AcceptanceState.compact_keeps hlookup hterminal) hkind hterminal

theorem completionReserved_of_compact
    (h : completionReserved ⟨files.main, files.acceptance.compact generation⟩ = false) :
    completionReserved files = false := by
  unfold completionReserved at h ⊢
  rw [List.any_eq_false] at h ⊢
  intro operation hmem hactive
  obtain ⟨key, hlookup⟩ := Table.mem_values_iff.mp hmem
  simp only [Bool.and_eq_true, decide_eq_true_eq, Option.isNone_iff_eq_none] at hactive
  refine h operation (Table.mem_values_iff.mpr
    ⟨key, AcceptanceState.compact_keeps hlookup hactive.1.2⟩) ?_
  simp [hactive]

theorem AcceptanceState.Adds.of_sub {acceptance acceptance' : AcceptanceState}
    {record : AcceptanceOperation} {sessions : Table String AcceptanceSession}
    (hsub : acceptance.Sub
      { taken with operations := taken.operations.insert key record, sessions })
    (htake : acceptance'.takeSequence = .ok (sequence, taken))
    (hacceptance : acceptance'.Sub files.acceptance) (hrecord : record.sequence = sequence)
    (hterminal : record.terminal = none) : acceptance.Adds files key record := by
  have htaken := (AcceptanceState.takeSequence_sub htake).trans hacceptance
  obtain ⟨hsequence, hnext⟩ := AcceptanceState.takeSequence_ok htake
  refine ⟨?_, ?_, hsub.opened key record (AList.lookup_insert _) hterminal,
    fun key' operation h => ?_⟩
  · rw [hrecord, hsequence]
    exact Nat.lt_succ_of_le hacceptance.nextSequence
  · refine Nat.le_trans ?_ hsub.nextSequence
    rw [hrecord, hnext]
  · rcases lookup_insert_cases (hsub.operations key' operation h) with hnew | ⟨-, hold⟩
    · exact .inl hnew
    · exact .inr (htaken.operations key' operation hold)

/-- The write that admits a reserved mutation. -/
theorem Change.of_admitted {acceptance acceptance' : AcceptanceState}
    (hsub : acceptance'.Sub acceptance)
    (hrecord : ∀ record, acceptance'.operations.lookup key = some record →
      record.kind = .mutation ∧ record.generation = main.generation) :
    Change strict ⟨main, acceptance⟩
      ⟨main, (acceptance'.admitted key).compactSources generation⟩ := by
  have hsessions : ((acceptance'.admitted key).compactSources generation).Sub
      { acceptance' with operations := (acceptance'.admitted key).operations } :=
    AcceptanceState.compactSources_sub generation _
  let succeeds := Succeeded ⟨main, acceptance⟩
    ((acceptance'.admitted key).compactSources generation)
  have hkept : ∀ key' session, acceptance'.sessions.lookup key' = some session →
      OldSession ⟨main, acceptance⟩ succeeds key' session := fun _ _ h => hsub.oldSession h
  have hold : ∀ key' session,
      ((acceptance'.admitted key).compactSources generation).sessions.lookup key' = some session →
        OldSession ⟨main, acceptance⟩ succeeds key' session := fun _ _ h => hsessions.oldSessions hkept h
  have hoperations : ∀ key' operation,
      ((acceptance'.admitted key).compactSources generation).operations.lookup key' =
        some operation →
      key' = key ∧ (acceptance'.operations.lookup key).map
          ({ · with admission := .admitted }) = some operation ∨
        key' ≠ key ∧ acceptance.operations.lookup key' = some operation := by
    intro key' operation h
    have hmodify : (acceptance'.operations.modify key
      ({ · with admission := .admitted })).lookup key' = some operation := h
    by_cases hkey : key' = key
    · subst hkey
      rw [Table.lookup_modify_self] at hmodify
      exact .inl ⟨rfl, hmodify⟩
    · rw [Table.lookup_modify_of_ne _ _ hkey] at hmodify
      exact .inr ⟨hkey, hsub.operations key' operation hmodify⟩
  have hkeptOpen : ∀ key' operation, acceptance.operations.lookup key' = some operation →
      operation.terminal = none → key' ≠ key →
        ((acceptance'.admitted key).compactSources generation).operations.lookup key' =
          some operation := by
    intro key' operation h hterminal hkey
    have hmodify := Table.lookup_modify_of_ne
      (fun operation : AcceptanceOperation => { operation with admission := .admitted })
      acceptance'.operations hkey
    exact hmodify.trans (hsub.opened key' operation h hterminal)
  cases hlookup : acceptance'.operations.lookup key with
  | none =>
    refine .accept ⟨hsub.nextSequence, fun key' operation h => ?_,
      fun key' operation h _ hterminal _ => hkeptOpen key' operation h hterminal ?_, hold⟩
    on_goal 2 =>
      rintro rfl
      cases hlookup.symm.trans (hsub.opened key' operation h hterminal)
    rcases hoperations key' operation h with ⟨-, hmap⟩ | ⟨-, hkept⟩
    · rw [hlookup] at hmap
      cases hmap
    · exact .refl hkept
  | some record =>
    obtain ⟨hkind, hgeneration⟩ := hrecord record hlookup
    refine .admitMutation (hsub.operations key record hlookup) hkind hgeneration hsub.nextSequence
      (fun key' operation h => ?_) hold hkeptOpen
    rcases hoperations key' operation h with ⟨hkey, hmap⟩ | hkept
    · rw [hlookup] at hmap
      exact .inl ⟨hkey, (Option.some.inj hmap).symm⟩
    · exact .inr hkept

theorem State.raise_within (h : main.generation ≤ generation) :
    ({ main with generation } : State).compactSessions.Within main :=
  ({ main with generation } : State).compactSessions_within.trans
    (.of_eq h (Nat.le_refl _) rfl rfl)

theorem reconcileReserved_writes {acceptance : AcceptanceState}
    (hsub : acceptance.Sub files.acceptance)
    (hlookup : acceptance.operations.lookup operationKey = some operation) :
    Writes (Change strict) files
      (reconcileReserved files.main acceptance operationKey operation) := by
  unfold reconcileReserved
  refine .lift_bind fun _ hmutation => ?_
  have hkind := ensure_eq_ok.mp hmutation
  refine .ite (fun hnext => ?_) fun _ => ?_
  · refine .write_bind (.shrink (State.raise_within ?_)) (.write (.of_admitted hsub fun record h => ?_))
    · exact hnext.2 ▸ Nat.le_succ _
    · cases hlookup.symm.trans h
      exact ⟨hkind, rfl⟩
  · refine .lift_bind fun _ hsame => .write (.of_admitted hsub fun record h => ?_)
    cases hlookup.symm.trans h
    exact ⟨hkind, (ensure_eq_ok.mp hsame).symm⟩

theorem admitMutation_writes {before : Files}
    (hsettled : Settled before files.acceptance) (hmain : before.main = files.main)
    (hkind : operation.kind = .mutation) (hterminal : operation.terminal = none) :
    Writes (Change strict) files (admitMutation host files
      (files.acceptance.compact generation) operationKey operation) := by
  unfold admitMutation
  refine .lift_bind fun _ hidle => .lift_bind fun next hnext => ?_
  refine .lift_bind fun ⟨sequence, taken⟩ htake => ?_
  have hnot := ensure_eq_ok.mp hidle
  simp only [not_or, Bool.not_eq_true] at hnot
  have hcompact := files.acceptance.compact_sub generation
  have hgeneration := checkedSucc_ok hnext
  dsimp only
  have hsub := AcceptanceState.compactReleased_sub host files.main.sessions { taken with
    operations := taken.operations.insert operationKey
      { operation with generation := next, sequence, admission := .reserved } }
  refine .write_bind (.reserveMutation ⟨mutationActive_of_compact hnot.1, hnot.2.1⟩ ?_
    (.of_sub hsub htake hcompact rfl hterminal) ?_ hkind rfl hterminal hgeneration) ?_
  · refine hsettled.noCompletion ?_
    rw [hmain]
    exact completionReserved_of_compact hnot.2.2
  · intro key session h
    refine hsub.oldSessions (fun key' old hold => ?_) h
    exact ((AcceptanceState.takeSequence_sub htake).trans hcompact).oldSession hold
  · refine .write_bind (.shrink (State.raise_within ?_)) (.write (.of_admitted (.refl _) ?_))
    · exact hgeneration ▸ Nat.le_succ _
    · intro record h
      rcases lookup_insert_cases (hsub.operations operationKey record h) with ⟨-, rfl⟩ | ⟨hne, -⟩
      · exact ⟨hkind, rfl⟩
      · exact absurd rfl hne

theorem acceptanceSession_ok {acceptance : AcceptanceState}
    (h : acceptanceSession acceptance key contractDigest = .ok session) :
    acceptance.sessions.lookup key = some session ∧ session.contractDigest = contractDigest := by
  unfold acceptanceSession at h
  rw [orErr_bind_ok] at h
  obtain ⟨found, hfound, h⟩ := h
  rw [ensure_bind_ok] at h
  cases h.2
  exact ⟨hfound, h.1⟩

/-- A validator that is admitted is one of the contract. -/
theorem validateAdmissionBinding_validator
    {bindingDigest : String} {sourceId source : Option String}
    (h : validateAdmissionBinding host session key
      (.validator requirement validatorId bindingDigest sourceId) = .ok source) :
    ∃ validator, session.contract.validator requirement validatorId = some validator := by
  unfold validateAdmissionBinding at h
  rw [orErr_bind_ok] at h
  obtain ⟨validator, hvalidator, -⟩ := h
  exact ⟨validator, (Option.filter_eq_some_iff.mp hvalidator).1⟩

theorem admitValidator_writes
    (hsession : (files.acceptance.compact generation).sessions.lookup operation.sessionKey =
      some session)
    (hdigest : session.contractDigest = operation.contractDigest)
    (hvalidator : ∃ validator, session.contract.validator requirement validatorId = some validator)
    (hkind : operation.kind = .validator requirement validatorId)
    (hterminal : operation.terminal = none)
    (hsource : ∀ source, operation.sourceOperationKey = some source →
      files.main.operations.lookup source = none) :
    Writes (Change strict) files (admitValidator host files
      (files.acceptance.compact generation) session operationKey requirement validatorId
      operation) := by
  unfold admitValidator
  refine .lift_bind fun _ hidle => .lift_bind fun ⟨sequence, taken⟩ htake => ?_
  refine .lift_bind fun _ _ => .write ?_
  have hnot := ensure_eq_ok.mp hidle
  simp only [not_or, Bool.not_eq_true] at hnot
  have hcompact := files.acceptance.compact_sub generation
  have htaken := (AcceptanceState.takeSequence_sub htake).trans hcompact
  obtain ⟨old, hold, hcontract, hsameDigest, hevidence⟩ := hcompact.sessions _ session hsession
  have hreleased := AcceptanceState.compactReleased_sub host files.main.sessions
  refine .admitValidator ⟨mutationActive_of_compact hnot.1, hnot.2⟩
    (.of_sub (hreleased _) htake hcompact rfl hterminal) hkind rfl hterminal rfl hsource
    fun key found h => ?_
  obtain ⟨inserted, hinserted, hcontract', hdigest', hevidence'⟩ := (hreleased _).sessions key found h
  rcases lookup_insert_cases hinserted with ⟨rfl, rfl⟩ | ⟨-, hkept⟩
  · refine .inr ⟨rfl, old, hold, ?_⟩
    rw [hcontract', hdigest', hevidence']
    -- the cited run is claimed, which touches neither the contract nor the evidence
    have hvalidator' : ∃ validator, old.contract.validator requirement validatorId =
        some validator := by rwa [← hcontract]
    cases operation.sourceOperationKey with
    | none =>
      exact ⟨hcontract, hsameDigest, hdigest.symm.trans hsameDigest, hvalidator',
        congrArg (AList.insert requirement _) hevidence⟩
    | some source =>
      exact ⟨hcontract, hsameDigest, hdigest.symm.trans hsameDigest, hvalidator',
        congrArg (AList.insert requirement _) hevidence⟩
  · exact .inl ((AcceptanceState.Sub.refl _).oldSessions (fun _ _ h => htaken.oldSession h)
      hkept |>.congr hcontract' hdigest' hevidence')

theorem admit_writes (contractDigest operationId attemptToken : String) (request : AdmitOperation) :
    Writes (Change strict) files (admit_ host authentic identity capability contractDigest
      operationId attemptToken request) := by
  unfold admit_
  refine .load_bind ?_
  dsimp only
  refine .lift_bind fun _ _ => .lift_bind fun _ _ => ?_
  refine terminalizeOrphans_bind fun acceptance hsettled => .load_bind ?_
  refine .lift_bind fun session hsession => .lift_bind fun source hbinding => ?_
  obtain ⟨hlookup, hdigest⟩ := acceptanceSession_ok hsession
  have hcompact := acceptance.compact_sub files.main.generation
  split
  · rename_i existing hexisting
    refine .ite (fun _ => ?_) fun _ => .lift _
    refine .ite (fun _ => ?_) fun _ => .ret _
    refine .bind ?_ fun _ _ => .ret _
    exact reconcileReserved_writes hcompact hexisting
  · refine .lift_bind fun _ hsource => .lift_bind fun _ _ => ?_
    have hfresh := ensure_eq_ok.mp hsource
    cases request with
    | mutation bindingDigest =>
      refine .bind ?_ fun _ _ => .ret _
      exact admitMutation_writes host hsettled rfl rfl rfl
    | validator requirement validatorId bindingDigest sourceId =>
      refine .bind ?_ fun _ _ => .ret _
      refine admitValidator_writes host hlookup hdigest
        (validateAdmissionBinding_validator host hbinding) rfl rfl fun source hsome => ?_
      obtain rfl := hsome
      simpa using hfresh

/-! ## Verdicts -/

theorem noMutation_of_satisfied {acceptance : AcceptanceState} {snapshot : ContractSnapshot}
    (h : (verdictStatuses main acceptance session key capabilityDigest snapshot).all
      (· = .satisfied)) : NoMutation ⟨main, acceptance⟩ := by
  unfold verdictStatuses at h
  rw [List.all_append, List.all_append, Bool.and_eq_true, Bool.and_eq_true] at h
  obtain ⟨⟨-, hmutations⟩, hshells⟩ := h
  constructor
  · refine AcceptanceState.mutationActive_eq_false.mpr fun opKey operation hlookup hkind hopen => ?_
    rw [List.all_map, List.all_eq_true] at hmutations
    have hstatus := hmutations operation (List.mem_filter.mpr
      ⟨Table.mem_values_iff.mpr ⟨opKey, hlookup⟩, by simp [hkind, hopen]⟩)
    unfold mutationVerdict at hstatus
    simp only [Function.comp_apply, hopen] at hstatus
    split at hstatus <;> simp at hstatus
  · show main.shellActive = false
    unfold State.shellActive
    rw [List.any_eq_false]
    intro operation hmem hactive
    rw [List.all_map, List.all_eq_true] at hshells
    have hstatus := hshells operation (List.mem_filter.mpr ⟨hmem, hactive⟩)
    simp only [Function.comp_apply] at hstatus
    split at hstatus <;> simp at hstatus

theorem reserveCompletion_writes {acceptance acceptance₀ : AcceptanceState}
    {identity : RequestIdentity} {operationId : String}
    (hidle : NoMutation ⟨files.main, acceptance⟩) :
    Writes (Change strict) ⟨files.main, acceptance⟩
      (reserveCompletion host ⟨files.main, acceptance₀⟩ acceptance identity capabilityDigest
        contractDigest operationId) := by
  unfold reserveCompletion
  dsimp only
  split
  · exact .lift _
  · refine .lift_bind fun _ _ => .lift_bind fun ⟨sequence, taken⟩ htake => .write ?_
    have hcompact := acceptance.compact_sub files.main.generation
    have hreleased := AcceptanceState.compactReleased_sub host files.main.sessions
    refine .completion hidle (.of_sub (hreleased _) htake hcompact rfl rfl) rfl fun key found h => ?_
    have htaken := (AcceptanceState.takeSequence_sub htake).trans hcompact
    refine (hreleased _).oldSessions (fun key' old hold => ?_) h
    have hkept : taken.sessions.lookup key' = some old := hold
    exact htaken.oldSession hkept

theorem verdict_writes (contractDigest : String) (completion : Option String)
    (snapshot : ContractSnapshot) :
    Writes (Change strict) files
      (verdict host authentic identity capability contractDigest completion snapshot) := by
  unfold verdict
  refine .load_bind ?_
  dsimp only
  refine .lift_bind fun _ _ => .lift_bind fun _ _ => ?_
  refine terminalizeOrphans_bind fun acceptance hsettled => .load_bind ?_
  have hsources := acceptance.compactSources_sub files.main.generation
  refine .ite (fun _ => .bind (.write (.accept hsources.within)) fun _ _ => ?_) fun hsame => ?_
  on_goal 2 => rw [ne_eq, not_not] at hsame; rw [hsame]
  all_goals
    refine .lift_bind fun session hsession => ?_
    split
    · refine .ite (fun hallowed => ?_) fun _ => .ret _
      refine .bind ?_ fun _ _ => .ret _
      exact reserveCompletion_writes host (noMutation_of_satisfied hallowed)
    · exact .ret _

end NilsCli.FinishLine
