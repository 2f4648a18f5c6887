import NilsCli.Lib.Transition
import NilsCli.Workspace.Lease

/-!
# Running operations of a workspace

The requests of any sessions, of both protocol generations, on the state files of a host
(`leaseSystem`).
-/

namespace NilsCli.Workspace

open Lib

variable {schema : String} {operation : OperationRecord} {request : Common} {binding : BindingRef}
  {prepared : PreparedBind} {operations : List OperationRecord} {reply : Option State}

section
variable {host : Host} {protocol : ProtocolGeneration} {env : Env} {key : String}
  {file : Option State} {state written : State} {outcome : Outcome}

/-! ## The state file -/

theorem writeState_ok (h : writeState host key state = .ok written) :
    written = state ∧ validateLoadedState host key state = .ok () := by
  unfold writeState at h
  rw [bind_eq_ok] at h
  obtain ⟨_, hvalid, h⟩ := h
  rw [ensure_bind_ok] at h
  exact ⟨(Except.ok.inj h.2).symm, hvalid⟩

theorem readState_ok {read : Option State} (h : readState host key file = .ok read) :
    read = file ∧ ∀ state, file = some state → validateLoadedState host key state = .ok () := by
  unfold readState at h
  cases file with
  | none => exact ⟨(Except.ok.inj h).symm, by simp⟩
  | some state =>
    dsimp only at h
    cases hvalid : validateLoadedState host key state with
    | error e => rw [hvalid] at h; cases h
    | ok =>
      rw [hvalid] at h
      exact ⟨(Except.ok.inj h).symm, by rintro _ ⟨⟩; exact hvalid⟩

theorem readRequiredState_ok (h : readRequiredState host key file = .ok state) :
    file = some state ∧ validateLoadedState host key state = .ok () := by
  unfold readRequiredState at h
  rw [bind_eq_ok] at h
  obtain ⟨read, hread, h⟩ := h
  obtain ⟨rfl, hvalid⟩ := readState_ok hread
  cases read with
  | none => cases h
  | some read =>
    cases Except.ok.inj h
    exact ⟨rfl, hvalid _ rfl⟩

theorem readRequiredState_some (h : validateLoadedState host key state = .ok ()) :
    readRequiredState host key (some state) = .ok state := by
  rw [readRequiredState, readState, h]
  rfl

theorem validOperations (h : validateLoadedState host key state = .ok ()) :
    (state.operations.map (·.operationId)).Nodup ∧
      ∀ operation ∈ state.operations, validOpaque operation.operationId "wlo1" := by
  have hall := ensure_eq_ok.mp h
  simp only [Bool.and_eq_true, decide_eq_true_eq, List.all_eq_true] at hall
  refine ⟨hall.1.1.2, fun operation hmem => ?_⟩
  have hone := hall.2 operation hmem
  simp only [validOperation, Bool.and_eq_true] at hone
  exact hone.1.1.1.1.1.1.1

theorem prefix_of_validOpaque {id : String} (h : validOpaque id "wlo1") :
    (stripPrefix? id "wlo1.").isSome := by
  unfold validOpaque at h
  split at h
  next rest hrest =>
    rw [show "wlo1." = "wlo1" ++ "." by decide, hrest]
    rfl
  next => cases h

/-! ## Answers -/

theorem kind_denied {state code reason : String} :
    (denied schema state code reason).kind = some "denied" := rfl

theorem kind_ack {kind text : String} : (ack schema kind text).kind = some kind := rfl

theorem kind_granted :
    (granted protocol operation).kind = some "granted" := rfl

theorem bindingDenial_kind (h : bindingDenial host protocol state request binding = some outcome) :
    outcome.kind = some "denied" := by
  unfold bindingDenial at h
  split at h
  next => cases h
  next =>
    split at h <;> cases h <;> exact kind_denied

theorem bindingDenial_none (h : bindingDenial host protocol state request binding = none) :
    exactBinding host state request binding ∧ state.binding.status = .active := by
  unfold bindingDenial at h
  split at h
  next hexact => simpa using hexact
  next => cases h

theorem expiredDenial_kind (h : expiredDenial protocol env state = .ok outcome) :
    outcome.kind = some "denied" := by
  unfold expiredDenial at h
  split at h
  · cases h
    exact kind_denied
  split at h
  · rw [bind_eq_ok] at h
    obtain ⟨isDirty, -, h⟩ := h
    split at h <;> cases h <;> exact kind_denied
  · cases h
    exact kind_denied

/-! ## What each request writes -/

theorem install_writes {request : BindRequest} {approved : Bool} {now : Nat}
    (h : installBinding host protocol env request prepared approved now file =
      .ok (outcome, some written)) :
    written = newState env prepared now file ∧
      validateLoadedState host prepared.key written = .ok () ∧
      (prepared.identity.isManaged → ∀ existing, file = some existing →
        existing.binding.status = .active → ∀ operation ∈ existing.operations,
          operation.isActive → ¬ (stripPrefix? operation.operationId "wlo1.").isSome) := by
  unfold installBinding at h
  rw [bind_eq_ok] at h
  obtain ⟨refusal, hrefusal, h⟩ := h
  cases refusal with
  | some refused => cases h
  | none =>
    rw [bind_eq_ok] at h
    obtain ⟨written', hwrite, h⟩ := h
    obtain ⟨rfl, hvalid⟩ := writeState_ok hwrite
    cases Except.ok.inj h
    refine ⟨rfl, hvalid, fun hmanaged existing hfile hstatus operation hmem hactive hprefix => ?_⟩
    rw [refuseBind, if_pos hmanaged, refuseManaged, hfile] at hrefusal
    split at hrefusal
    next => cases hrefusal
    next =>
      split at hrefusal
      next => cases hrefusal
      next huncertain =>
        refine huncertain ?_
        simp only [Option.any_some, Bool.and_eq_true, decide_eq_true_eq, List.any_eq_true]
        exact ⟨hstatus, operation, hmem, hactive, hprefix⟩

theorem bind_writes {request : BindRequest}
    (h : bindLocked host protocol env request prepared file = .ok (outcome, some written)) :
    ∃ now, written = newState env prepared now file ∧
      validateLoadedState host prepared.key written = .ok () ∧
      ∀ existing, file = some existing →
        validateLoadedState host prepared.key existing = .ok () ∧
        existing.identity = prepared.identity ∧
        (prepared.identity.isManaged → existing.binding.status = .active →
          ∀ operation ∈ existing.operations, operation.isActive →
            ¬ (stripPrefix? operation.operationId "wlo1.").isSome) := by
  unfold bindLocked at h
  rw [bind_eq_ok] at h
  obtain ⟨read, hread, h⟩ := h
  obtain ⟨rfl, hvalid⟩ := readState_ok hread
  rw [bind_eq_ok] at h
  obtain ⟨now, -, h⟩ := h
  rw [bind_eq_ok] at h
  obtain ⟨retry, hretry, h⟩ := h
  cases retry with
  | some retried => cases h
  | none =>
    have hsame : ∀ existing, read = some existing → existing.identity = prepared.identity := by
      rintro existing rfl
      by_contra hne
      rw [bindRetry, if_pos hne] at hretry
      cases hretry
    have hinstall : ∃ approved, installBinding host protocol env request prepared approved now read =
        .ok (outcome, some written) := by
      dsimp only at h
      unfold takeoverBinding at h
      split at h
      next => exact ⟨false, h⟩
      next =>
        rw [bind_eq_ok] at h
        obtain ⟨refusal, -, h⟩ := h
        cases refusal with
        | some refused => cases h
        | none => exact ⟨true, h⟩
    obtain ⟨approved, hinstall⟩ := hinstall
    obtain ⟨hnew, hwritten, hquiet⟩ := install_writes hinstall
    exact ⟨now, hnew, hwritten, fun existing hfile => ⟨hvalid existing hfile, hsame existing hfile,
      fun hmanaged => hquiet hmanaged existing hfile⟩⟩

theorem mem_dropTerminal {n : Nat} (hmem : operation ∈ operations) (hactive : operation.isActive) :
    operation ∈ dropTerminal n operations := by
  induction operations generalizing n with
  | nil => cases hmem
  | cons first operations ih =>
    cases n with
    | zero => exact hmem
    | succ n =>
      rw [dropTerminal]
      rcases List.mem_cons.mp hmem with rfl | hmem
      · rw [if_pos hactive]
        exact List.mem_cons_self
      · split
        · exact List.mem_cons_of_mem _ (ih hmem)
        · exact ih hmem

theorem mem_roomFor (hmem : operation ∈ operations) (hactive : operation.isActive) :
    operation ∈ roomFor operations := by
  unfold roomFor
  split
  · exact mem_dropTerminal hmem hactive
  · exact hmem

theorem begin_reaches {request : BeginRequest}
    (h : beginLocked host protocol env request key file = .ok (outcome, reply)) :
    ∃ state, file = some state ∧ validateLoadedState host key state = .ok () ∧
      (outcome.kind ≠ some "granted" ∧ reply = none ∨
        ∃ now, (exactBinding host state request.toCommon request.toBindingRef ∧
            state.binding.status = .active ∧ state.binding.mode ≠ .unmanaged) ∧
          beginOperation host protocol env request key now state = .ok (outcome, reply)) := by
  unfold beginLocked at h
  rw [bind_eq_ok] at h
  obtain ⟨state, hread, h⟩ := h
  obtain ⟨hfile, hvalid⟩ := readRequiredState_ok hread
  refine ⟨state, hfile, hvalid, ?_⟩
  cases hdenial : bindingDenial host protocol state request.toCommon request.toBindingRef with
  | some denial =>
    rw [hdenial] at h
    cases Except.ok.inj h
    left
    exact ⟨by rw [bindingDenial_kind hdenial]; decide, rfl⟩
  | none =>
    obtain ⟨hexact, hstatus⟩ := bindingDenial_none hdenial
    rw [hdenial] at h
    dsimp only at h
    rw [bind_eq_ok] at h
    obtain ⟨_, -, h⟩ := h
    rw [bind_eq_ok] at h
    obtain ⟨_, -, h⟩ := h
    rw [ensure_bind_ok] at h
    obtain ⟨-, h⟩ := h
    split at h
    next =>
      cases Except.ok.inj h
      left
      exact ⟨by rw [kind_ack]; decide, rfl⟩
    next hfenced =>
      rw [bind_eq_ok] at h
      obtain ⟨now, -, h⟩ := h
      split at h
      next =>
        rw [bind_eq_ok] at h
        obtain ⟨expired, hexpired, h⟩ := h
        cases Except.ok.inj h
        left
        exact ⟨by rw [expiredDenial_kind hexpired]; decide, rfl⟩
      next =>
        refine .inr ⟨now, ⟨hexact, hstatus, fun hmode => ?_⟩, h⟩
        simp [hmode] at hfenced

theorem begin_cases {request : BeginRequest}
    (h : beginLocked host protocol env request key file = .ok (outcome, reply)) :
    ∃ state, file = some state ∧ validateLoadedState host key state = .ok () ∧
      (outcome.kind ≠ some "granted" ∧ reply = none ∨
        exactBinding host state request.toCommon request.toBindingRef ∧
          state.binding.status = .active ∧ state.binding.mode ≠ .unmanaged ∧
          ((∃ operation ∈ state.operations, operation.isActive ∧
              outcome = granted protocol operation ∧ reply = none) ∨
            ∃ operations requestDigest now,
              (∀ operation ∈ state.operations, operation.isActive → operation ∈ operations) ∧
              outcome = granted protocol (newOperation host env request requestDigest now) ∧
              validateLoadedState host key { state with operations := operations ++
                [newOperation host env request requestDigest now] } = .ok () ∧
              reply = some { state with operations := operations ++
                [newOperation host env request requestDigest now] })) := by
  obtain ⟨state, hfile, hvalid, hrefused | ⟨now, ⟨hexact, hstatus, hmode⟩, h⟩⟩ := begin_reaches h
  · exact ⟨state, hfile, hvalid, .inl hrefused⟩
  refine ⟨state, hfile, hvalid, ?_⟩
  unfold beginOperation at h
  dsimp only at h
  split at h
  next existing hfind =>
    split at h
    next => cases h
    split at h
    next =>
      cases Except.ok.inj h
      left
      exact ⟨by rw [kind_denied]; decide, rfl⟩
    next hactive =>
      cases Except.ok.inj h
      right
      refine ⟨hexact, hstatus, hmode, .inl ⟨existing, List.mem_of_find?_eq_some hfind, ?_, rfl,
        rfl⟩⟩
      simpa using hactive
  next =>
    split at h
    next => cases h
    next =>
      rw [bind_eq_ok] at h
      obtain ⟨written, hwrite, h⟩ := h
      obtain ⟨rfl, hwritten⟩ := writeState_ok hwrite
      cases Except.ok.inj h
      right
      exact ⟨hexact, hstatus, hmode, .inr ⟨_, _, now, fun _ => mem_roomFor, rfl, hwritten, rfl⟩⟩

theorem complete_writes {request : CompleteRequest}
    (h : completeLocked host protocol env request key file = .ok (outcome, some written)) :
    ∃ state operation now digest, file = some state ∧
      validateLoadedState host key state = .ok () ∧
      state.binding.status = .active ∧
      exactBinding host state request.toCommon request.toBindingRef ∧
      state.operations.find? (·.operationId = request.operationId) = some operation ∧
      operation.fence = request.fence ∧
      completionExecution host request.callId request.rootCallId request.toolName =
        operation.completionExecutionDigest ∧
      validateLoadedState host key written = .ok () ∧
      written = { state with
        operations := updateFirst (·.operationId = request.operationId)
          (·.ended request.outcome now digest) state.operations } := by
  unfold completeLocked at h
  rw [bind_eq_ok] at h
  obtain ⟨state, hread, h⟩ := h
  obtain ⟨hfile, hvalid⟩ := readRequiredState_ok hread
  rw [bind_eq_ok] at h
  obtain ⟨_, hbinding, h⟩ := h
  have hbinding := ensure_eq_ok.mp hbinding
  simp only [Bool.and_eq_true, decide_eq_true_eq] at hbinding
  cases hfind : state.operations.find? (·.operationId = request.operationId) with
  | none => rw [hfind] at h; cases h
  | some operation =>
    rw [hfind] at h
    dsimp only at h
    rw [ensure_bind_ok] at h
    obtain ⟨hfence, h⟩ := h
    rw [ensure_bind_ok] at h
    obtain ⟨hexecution, h⟩ := h
    split at h
    next =>
      split at h
      next => cases h
      next => cases h
    next =>
      rw [bind_eq_ok] at h
      obtain ⟨now, -, h⟩ := h
      rw [bind_eq_ok] at h
      obtain ⟨written', hwrite, h⟩ := h
      obtain ⟨rfl, hwritten⟩ := writeState_ok hwrite
      cases Except.ok.inj h
      exact ⟨state, operation, now, _, hfile, hvalid, hbinding.1, hbinding.2, hfind, hfence,
        hexecution, hwritten, rfl⟩

theorem renew_writes {request : RenewRequest}
    (h : renewLocked host protocol env request key file = .ok (outcome, some written)) :
    ∃ state refreshedAtEpoch expiresAtEpoch, file = some state ∧
      validateLoadedState host key state = .ok () ∧
      validateLoadedState host key written = .ok () ∧
      written = { state with
        binding := { state.binding with refreshedAtEpoch, expiresAtEpoch } } := by
  unfold renewLocked at h
  rw [bind_eq_ok] at h
  obtain ⟨state, hread, h⟩ := h
  obtain ⟨hfile, hvalid⟩ := readRequiredState_ok hread
  cases hdenial : bindingDenial host protocol state request.toCommon request.toBindingRef with
  | some denial => rw [hdenial] at h; cases h
  | none =>
    rw [hdenial] at h
    dsimp only at h
    rw [bind_eq_ok] at h
    obtain ⟨_, -, h⟩ := h
    rw [bind_eq_ok] at h
    obtain ⟨now, -, h⟩ := h
    split at h
    next =>
      rw [bind_eq_ok] at h
      obtain ⟨_, -, h⟩ := h
      cases h
    next =>
      rw [bind_eq_ok] at h
      obtain ⟨written', hwrite, h⟩ := h
      obtain ⟨rfl, hwritten⟩ := writeState_ok hwrite
      cases Except.ok.inj h
      exact ⟨state, _, _, hfile, hvalid, hwritten, rfl⟩

theorem release_cases {request : ReleaseRequest}
    (h : releaseLocked host protocol env request key file = .ok (outcome, reply)) :
    ∃ state, file = some state ∧ validateLoadedState host key state = .ok () ∧
      (state.binding.status ≠ .active ∧ outcome.kind ≠ some "released" ∧ reply = none ∨
        state.busy = false ∧ ∃ now, validateLoadedState host key { state with
            binding := { state.binding with status := .released, expiresAtEpoch := now } } = .ok () ∧
          reply = some { state with
            binding := { state.binding with status := .released, expiresAtEpoch := now } }) := by
  unfold releaseLocked at h
  rw [bind_eq_ok] at h
  obtain ⟨state, hread, h⟩ := h
  obtain ⟨hfile, hvalid⟩ := readRequiredState_ok hread
  refine ⟨state, hfile, hvalid, ?_⟩
  split at h
  next hstatus =>
    split at h
    next =>
      cases Except.ok.inj h
      left
      exact ⟨hstatus, by rw [kind_ack]; decide, rfl⟩
    next => cases h
  next =>
    rw [bind_eq_ok] at h
    obtain ⟨_, -, h⟩ := h
    rw [ensure_bind_ok] at h
    obtain ⟨hquiet, h⟩ := h
    rw [bind_eq_ok] at h
    obtain ⟨now, -, h⟩ := h
    rw [bind_eq_ok] at h
    obtain ⟨written, hwrite, h⟩ := h
    obtain ⟨rfl, hwritten⟩ := writeState_ok hwrite
    cases Except.ok.inj h
    right
    exact ⟨by simpa using hquiet, now, hwritten, rfl⟩

end

end NilsCli.Workspace
