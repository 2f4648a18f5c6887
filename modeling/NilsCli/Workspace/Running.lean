import NilsCli.Workspace.Operations

/-!
# Runs of a state root

The requests of any sessions on the state files of a host (`leaseSystem`).
-/

namespace NilsCli.Workspace

open Lib

variable {reply : Option State → Reply} {key' nonce : String} {state before : State}
  {binding : BindingRef}

variable {request : Request} {now : Nat}

section
variable {host : Host} {protocol : ProtocolGeneration} {env : Env} {key : String}
  {files : Files} {outcome : Outcome} {written : State}

/-! ## What a request writes -/

inductive Wrote (host : Host) (env : Env) (key : String) (before : Option State) :
    Request → State → Prop
  /-- A new binding, which has no operations: not over a managed workspace that has one running. -/
  | bind {request : BindRequest} {prepared : PreparedBind} {now : Nat}
      (hkey : prepared.key = key)
      (hquiet : ∀ existing, before = some existing → existing.identity = prepared.identity ∧
        (prepared.identity.isManaged → existing.binding.status = .active →
          ∀ operation ∈ existing.operations, operation.isActive →
            ¬ (stripPrefix? operation.operationId "wlo1.").isSome)) :
      Wrote host env key before (.bind request) (newState env prepared now before)
  | begin_ {request : BeginRequest} {state : State} {operations : List OperationRecord}
      {requestDigest : String} {now : Nat} (hbefore : before = some state)
      (hstatus : state.binding.status = .active) (hmode : state.binding.mode ≠ .unmanaged)
      (hkept : ∀ operation ∈ state.operations, operation.isActive → operation ∈ operations) :
      Wrote host env key before (.begin_ request) { state with operations := operations ++
        [newOperation host env request requestDigest now] }
  | complete {request : CompleteRequest} {state : State} {operation : OperationRecord} {now : Nat}
      {digest : String} (hbefore : before = some state) (hstatus : state.binding.status = .active)
      (hexact : exactBinding host state request.toCommon request.toBindingRef)
      (hfind : state.operations.find? (·.operationId = request.operationId) = some operation)
      (hfence : operation.fence = request.fence)
      (hexecution : completionExecution host request.callId request.rootCallId request.toolName =
        operation.completionExecutionDigest) :
      Wrote host env key before (.complete request) { state with
        operations := updateFirst (·.operationId = request.operationId)
          (·.ended request.outcome now digest) state.operations }
  | renew {request : RenewRequest} {state : State} {refreshedAtEpoch expiresAtEpoch : Nat}
      (hbefore : before = some state) :
      Wrote host env key before (.renew request) { state with
        binding := { state.binding with refreshedAtEpoch, expiresAtEpoch } }
  | release {request : ReleaseRequest} {state : State} {now : Nat} (hbefore : before = some state)
      (hquiet : state.busy = false) :
      Wrote host env key before (.release request) { state with
        binding := { state.binding with status := .released, expiresAtEpoch := now } }

theorem underKey_ok {served : Option (String × State)}
    (h : underKey key reply files = .ok (outcome, served)) :
    ∃ written, reply (files key) = .ok (outcome, written) ∧ served = written.map (key, ·) := by
  unfold underKey at h
  cases hreply : reply (files key) with
  | error e => rw [hreply] at h; cases h
  | ok answer =>
    rw [hreply] at h
    cases h
    exact ⟨answer.2, rfl, rfl⟩

theorem underKey_write (h : underKey key' reply files = .ok (outcome, some (key, written))) :
    key' = key ∧ reply (files key) = .ok (outcome, some written) := by
  obtain ⟨reply', hreply, hserved⟩ := underKey_ok h
  cases reply' with
  | none => cases hserved
  | some state =>
    cases hserved
    exact ⟨rfl, hreply⟩

theorem serve_writes
    (h : serve host protocol env request files = .ok (outcome, some (key, written))) :
    validateLoadedState host key written = .ok () ∧
      Wrote host env key (files key) request written := by
  cases request with
  | bind request =>
    rw [serve, bind_eq_ok] at h
    obtain ⟨prepared, -, h⟩ := h
    cases prepared with
    | none => cases h
    | some prepared =>
      obtain ⟨rfl, h⟩ := underKey_write h
      obtain ⟨now, rfl, hvalid, hquiet⟩ := bind_writes h
      exact ⟨hvalid, .bind rfl fun existing hfile => (hquiet existing hfile).2⟩
  | begin_ request =>
    rw [serve, bind_eq_ok] at h
    obtain ⟨_, -, h⟩ := h
    obtain ⟨rfl, h⟩ := underKey_write h
    obtain ⟨state, hfile, -, hcases⟩ := begin_cases h
    rcases hcases with ⟨-, hnone⟩ | ⟨-, hstatus, hmode, ⟨_, -, -, -, hnone⟩ |
      ⟨operations, requestDigest, now, hkept, -, hvalid, hwritten⟩⟩
    · cases hnone
    · cases hnone
    · cases hwritten
      exact ⟨hvalid, .begin_ hfile hstatus hmode hkept⟩
  | complete request =>
    rw [serve, bind_eq_ok] at h
    obtain ⟨_, -, h⟩ := h
    obtain ⟨rfl, h⟩ := underKey_write h
    obtain ⟨state, operation, now, digest, hfile, -, hstatus, hexact, hfind, hfence, hexecution, hvalid,
      rfl⟩ := complete_writes h
    exact ⟨hvalid, .complete hfile hstatus hexact hfind hfence hexecution⟩
  | renew request =>
    rw [serve, bind_eq_ok] at h
    obtain ⟨_, -, h⟩ := h
    obtain ⟨rfl, h⟩ := underKey_write h
    obtain ⟨state, refreshedAtEpoch, expiresAtEpoch, hfile, -, hvalid, rfl⟩ := renew_writes h
    exact ⟨hvalid, .renew hfile⟩
  | release request =>
    rw [serve, bind_eq_ok] at h
    obtain ⟨_, -, h⟩ := h
    obtain ⟨rfl, h⟩ := underKey_write h
    obtain ⟨state, hfile, -, hcases⟩ := release_cases h
    rcases hcases with ⟨-, -, hnone⟩ | ⟨hquiet, now, hvalid, hwritten⟩
    · cases hnone
    · cases hwritten
      exact ⟨hvalid, .release hfile hquiet⟩

/-! ## The system -/

structure Disk where
  files : Files
  now : Nat

variable {disk : Disk}

structure LeaseLabel where
  protocol : ProtocolGeneration
  env : Env
  request : Request

/-- A request is served while its workspace is locked; the clock does not go back. -/
inductive LeaseStep (host : Host) : LeaseLabel → Disk → Disk → Prop
  | serve {protocol : ProtocolGeneration} {env : Env} {request : Request} {disk : Disk}
      (hclock : ∀ now, env.now = some now → disk.now ≤ now) :
      LeaseStep host ⟨protocol, env, request⟩ disk
        ⟨disk.files.after (serve host protocol env request disk.files), env.now.getD disk.now⟩

/-- A state root, from an empty one on. -/
def leaseSystem (host : Host) : Lts where
  State := Disk
  Label := LeaseLabel
  init disk := ∀ key, disk.files key = none
  step := LeaseStep host

theorem after_cases (h : files.after (serve host protocol env request files) key = some state) :
    files key = some state ∨ ∃ outcome,
      serve host protocol env request files = .ok (outcome, some (key, state)) := by
  cases hserve : serve host protocol env request files with
  | error e => rw [hserve] at h; exact .inl h
  | ok answer =>
    obtain ⟨outcome, reply⟩ := answer
    cases reply with
    | none => rw [hserve] at h; exact .inl h
    | some reply =>
      obtain ⟨key', written⟩ := reply
      rw [hserve] at h
      by_cases hkey : key = key'
      · subst hkey
        rw [Files.after, Function.update_self] at h
        cases h
        exact .inr ⟨outcome, rfl⟩
      · rw [Files.after, Function.update_of_ne hkey] at h
        exact .inl h

/-! ## Invariant -/

/-- What holds of the state file of `key`. -/
structure Sound (host : Host) (key : String) (state : State) : Prop where
  valid : validateLoadedState host key state = .ok ()
  /-- Only a managed workspace is owned. -/
  owned : state.binding.mode ≠ .unmanaged → state.identity.isManaged
  /-- Only a managed workspace has operations. -/
  managed : state.operations ≠ [] → state.identity.isManaged
  /-- A binding that was released has no running operation. -/
  quiet : state.binding.status ≠ .active → state.busy = false

theorem Wrote.sound {before : Option State}
    (hbefore : ∀ state, before = some state → Sound host key state)
    (hvalid : validateLoadedState host key written = .ok ())
    (h : Wrote host env key before request written) : Sound host key written := by
  cases h with
  | bind hkey hquiet =>
    refine ⟨hvalid, fun hmode => ?_, fun hne => absurd rfl hne, fun hne => absurd rfl hne⟩
    by_contra hunmanaged
    exact hmode (if_neg hunmanaged)
  | begin_ hfile hstatus hmode hkept =>
    have hsound := hbefore _ hfile
    exact ⟨hvalid, hsound.owned, fun _ => hsound.owned hmode, fun hne => absurd hstatus hne⟩
  | complete hfile hstatus hexact hfind =>
    have hsound := hbefore _ hfile
    refine ⟨hvalid, hsound.owned, fun _ => hsound.managed ?_, fun hne => absurd hstatus hne⟩
    exact List.ne_nil_of_mem (List.mem_of_find?_eq_some hfind)
  | renew hfile =>
    have hsound := hbefore _ hfile
    exact ⟨hvalid, hsound.owned, hsound.managed, hsound.quiet⟩
  | release hfile hquiet =>
    have hsound := hbefore _ hfile
    exact ⟨hvalid, hsound.owned, hsound.managed, fun _ => hquiet⟩

/-- Every file is sound. -/
def Disk.Sound (host : Host) (disk : Disk) : Prop :=
  ∀ key state, disk.files key = some state → Workspace.Sound host key state

theorem step_sound (label : LeaseLabel) (disk disk' : Disk) (h : disk.Sound host)
    (hstep : LeaseStep host label disk disk') : disk'.Sound host := by
  cases hstep with
  | serve hclock =>
    intro key state hfile
    rcases after_cases hfile with hfile | ⟨outcome, hserve⟩
    · exact h key state hfile
    · obtain ⟨hvalid, hwrote⟩ := serve_writes hserve
      exact hwrote.sound (h key) hvalid

theorem reach_sound (h : (leaseSystem host).Reach disk) : disk.Sound host :=
  h.invariant (S := leaseSystem host) (fun _ hinit key state hfile => by rw [hinit key] at hfile; cases hfile)
    step_sound

/-! ## Running operations -/

def Running (host : Host) (key : String) (request : BeginRequest) (operation : OperationRecord)
    (files : Files) : Prop :=
  ∃ state, files key = some state ∧ operation ∈ state.operations ∧ operation.isActive ∧
    state.binding.status = .active ∧
    exactBinding host state request.toCommon request.toBindingRef

/-- The completion of exactly that operation under the binding that `request` names. -/
def Completes (host : Host) (request : BeginRequest) (operation : OperationRecord) :
    Request → Prop
  | .complete completion =>
    completion.operationId = operation.operationId ∧ completion.fence = operation.fence ∧
      completionExecution host completion.callId completion.rootCallId completion.toolName =
        operation.completionExecutionDigest ∧
      completion.bindingId = request.bindingId ∧ completion.workspaceId = request.workspaceId ∧
      completion.generation = request.generation ∧
      host.digest completion.sessionId = host.digest request.sessionId
  | _ => False

theorem exactBinding_iff {request : Common} :
    exactBinding host state request binding ↔
      state.binding.bindingId = binding.bindingId ∧ state.binding.generation = binding.generation ∧
        binding.workspaceId = state.workspaceId ∧
        state.binding.sessionDigest = host.digest request.sessionId ∧
        state.binding.parentSessionDigest = request.parentSessionId.map host.digest := by
  simp [exactBinding, and_assoc]

theorem not_wrote_bind {request : BindRequest} {operation : OperationRecord}
    (hsound : Sound host key before) (hmem : operation ∈ before.operations)
    (hactive : operation.isActive) (hstatus : before.binding.status = .active) :
    ¬ Wrote host env key (some before) (.bind request) written := by
  rintro ⟨hkey, hquiet⟩
  obtain ⟨hidentity, hquiet⟩ := hquiet before rfl
  have hmanaged : before.identity.isManaged := hsound.managed (List.ne_nil_of_mem hmem)
  have hprefix := prefix_of_validOpaque ((validOperations hsound.valid).2 operation hmem)
  exact hquiet (hidentity ▸ hmanaged) hstatus operation hmem hactive hprefix

theorem Wrote.keeps {granting : BeginRequest}
    {operation : OperationRecord} (hsound : Sound host key before)
    (hmem : operation ∈ before.operations) (hactive : operation.isActive)
    (hstatus : before.binding.status = .active)
    (hexact : exactBinding host before granting.toCommon granting.toBindingRef)
    (h : Wrote host env key (some before) request written) :
    (operation ∈ written.operations ∧ written.binding.status = .active ∧
      exactBinding host written granting.toCommon granting.toBindingRef) ∨
      Completes host granting operation request := by
  have hwrote := h
  cases h with
  | bind => exact absurd hwrote (not_wrote_bind hsound hmem hactive hstatus)
  | begin_ hfile _ _ hkept =>
    cases hfile
    exact .inl ⟨List.mem_append_left _ (hkept operation hmem hactive), hstatus, hexact⟩
  | @complete completion _ found _ _ hfile _ hexact' hfind hfence hexecution =>
    cases hfile
    rcases mem_updateFirst_or hmem with hkept | hfound
    · exact .inl ⟨hkept, hstatus, hexact⟩
    · cases hfind.symm.trans hfound
      have hid : operation.operationId = completion.operationId := by
        simpa using List.find?_some hfind
      obtain ⟨hb, hg, hw, hs, -⟩ := exactBinding_iff.mp hexact
      obtain ⟨hb', hg', hw', hs', -⟩ := exactBinding_iff.mp hexact'
      exact .inr ⟨hid.symm, hfence.symm, hexecution, hb'.symm.trans hb, hw'.trans hw.symm,
        hg'.symm.trans hg, hs'.symm.trans hs⟩
  | renew hfile =>
    cases hfile
    exact .inl ⟨hmem, hstatus, hexact⟩
  | release hfile hquiet =>
    cases hfile
    have hbusy : before.busy := List.any_eq_true.mpr ⟨operation, hmem, hactive⟩
    rw [hquiet] at hbusy
    cases hbusy

theorem step_keeps {granting : BeginRequest} {operation : OperationRecord} (label : LeaseLabel)
    (disk disk' : Disk) (hsound : disk.Sound host)
    (hrunning : Running host key granting operation disk.files)
    (hstep : LeaseStep host label disk disk') :
    Running host key granting operation disk'.files ∨
      Completes host granting operation label.request := by
  cases hstep with
  | @serve protocol env request _ hclock =>
    obtain ⟨state, hfile, hmem, hactive, hstatus, hexact⟩ := hrunning
    have hkept : (disk.files.after (serve host protocol env request disk.files)) key =
        some state ∨ ∃ outcome written, serve host protocol env request disk.files =
          .ok (outcome, some (key, written)) ∧
          (disk.files.after (serve host protocol env request disk.files)) key = some written := by
      cases hserve : serve host protocol env request disk.files with
      | error e => exact .inl hfile
      | ok answer =>
        obtain ⟨outcome, reply⟩ := answer
        cases reply with
        | none => exact .inl hfile
        | some reply =>
          obtain ⟨key', written⟩ := reply
          by_cases hkey : key = key'
          · subst hkey
            exact .inr ⟨outcome, written, rfl, Function.update_self ..⟩
          · exact .inl ((Function.update_of_ne hkey ..).trans hfile)
    rcases hkept with hkept | ⟨outcome, written, hserve, hafter⟩
    · exact .inl ⟨state, hkept, hmem, hactive, hstatus, hexact⟩
    · obtain ⟨hvalid, hwrote⟩ := serve_writes hserve
      rw [hfile] at hwrote
      rcases hwrote.keeps (hsound key state hfile) hmem hactive hstatus hexact with
        ⟨hmem', hstatus', hexact'⟩ | hcompletes
      · exact .inl ⟨written, hafter, hmem', hactive, hstatus', hexact'⟩
      · exact .inr hcompletes

/-! ## Answers while an operation is running -/

section
variable {granting : BeginRequest} {operation : OperationRecord}
  {served : Option (String × State)}

theorem bind_refused {request : BindRequest} (hsound : Disk.Sound host ⟨files, 0⟩)
    (hrunning : Running host key granting operation files) :
    serve host protocol env (.bind request) files ≠ .ok (outcome, some (key, written)) := by
  intro h
  obtain ⟨state, hfile, hmem, hactive, hstatus, -⟩ := hrunning
  obtain ⟨-, hwrote⟩ := serve_writes h
  rw [hfile] at hwrote
  exact not_wrote_bind (hsound key state hfile) hmem hactive hstatus hwrote

theorem requestKey_ok {request : Common} {texts : List String}
    (hkey : bindingKey binding.bindingId = .ok key)
    (h : requestKey protocol request binding texts = .ok key') : key' = key := by
  unfold requestKey at h
  rw [bind_eq_ok] at h
  obtain ⟨_, -, h⟩ := h
  rw [bind_eq_ok] at h
  obtain ⟨_, -, h⟩ := h
  exact Except.ok.inj (h.symm.trans hkey)

theorem release_refused {request : ReleaseRequest}
    (hrunning : Running host key granting operation files)
    (hkey : bindingKey request.bindingId = .ok key) :
    serve host protocol env (.release request) files ≠ .ok (outcome, served) := by
  intro h
  obtain ⟨state, hfile, hmem, hactive, hstatus, -⟩ := hrunning
  rw [serve, bind_eq_ok] at h
  obtain ⟨key', hkey', h⟩ := h
  obtain rfl := requestKey_ok hkey hkey'
  obtain ⟨_, h, -⟩ := underKey_ok h
  obtain ⟨found, hfound, -, hcases⟩ := release_cases h
  cases hfile.symm.trans hfound
  rcases hcases with ⟨hreleased, -, -⟩ | ⟨hquiet, -⟩
  · exact hreleased hstatus
  · have hbusy : state.busy := List.any_eq_true.mpr ⟨operation, hmem, hactive⟩
    rw [hquiet] at hbusy
    cases hbusy

theorem begin_granted {request : BeginRequest}
    (h : serve host protocol env (.begin_ request) files = .ok (outcome, served))
    (hgranted : outcome.kind = some "granted") :
    ∃ key operation, bindingKey request.bindingId = .ok key ∧
      outcome = granted protocol operation ∧
      (∃ state, files key = some state ∧
        exactBinding host state request.toCommon request.toBindingRef) ∧
      Running host key request operation
        (files.after (serve host protocol env (.begin_ request) files)) ∧
      (served ≠ none → operation.completionExecutionDigest =
        completionExecution host request.callId request.rootCallId request.toolName) := by
  rw [h]
  rw [serve, bind_eq_ok] at h
  obtain ⟨key, hkey, h⟩ := h
  obtain ⟨reply, hreply, rfl⟩ := underKey_ok h
  have hkey : bindingKey request.bindingId = .ok key := by
    unfold requestKey at hkey
    rw [bind_eq_ok] at hkey
    obtain ⟨_, -, hkey⟩ := hkey
    rw [bind_eq_ok] at hkey
    obtain ⟨_, -, hkey⟩ := hkey
    exact hkey
  obtain ⟨state, hfile, -, hcases⟩ := begin_cases hreply
  rcases hcases with ⟨hrefused, -⟩ | ⟨hexact, hstatus, -, ⟨operation, hmem, hactive, rfl, rfl⟩ |
    ⟨operations, requestDigest, now, -, rfl, -, rfl⟩⟩
  · exact absurd hgranted hrefused
  · exact ⟨key, operation, hkey, rfl, ⟨state, hfile, hexact⟩,
      ⟨state, hfile, hmem, hactive, hstatus, hexact⟩, fun hne => absurd rfl hne⟩
  · exact ⟨key, _, hkey, rfl, ⟨state, hfile, hexact⟩,
      ⟨_, Function.update_self .., List.mem_append_right _ (List.mem_singleton.mpr rfl), rfl, hstatus,
        hexact⟩, fun _ => rfl⟩

theorem begin_refused {request : BeginRequest}
    (hrunning : Running host key granting operation files)
    (hkey : bindingKey request.bindingId = .ok key)
    (hother : host.digest request.sessionId ≠ host.digest granting.sessionId)
    (h : serve host protocol env (.begin_ request) files = .ok (outcome, served)) :
    outcome.kind ≠ some "granted" := by
  intro hgranted
  obtain ⟨state, hfile, -, -, -, hexact⟩ := hrunning
  obtain ⟨key', _, hkey', -, ⟨found, hfound, hexact'⟩, -⟩ := begin_granted h hgranted
  obtain rfl := Except.ok.inj (hkey.symm.trans hkey')
  cases hfile.symm.trans hfound
  exact hother ((exactBinding_iff.mp hexact').2.2.2.1.symm.trans (exactBinding_iff.mp hexact).2.2.2.1)

end

/-- Whatever requests follow the one that was granted an operation: it is recorded as running under
the binding that it was granted to, or its completion was served. While it is, no bind request writes
the file of the workspace, no release succeeds, and no begin of another session is granted. -/
theorem running_operation_kept {before begun after : Disk} {request : BeginRequest}
    {served : Option (String × State)} {labels : List LeaseLabel}
    (hreach : (leaseSystem host).Reach before)
    (hserve : serve host protocol env (.begin_ request) before.files = .ok (outcome, served))
    (hgranted : outcome.kind = some "granted")
    (hstep : (leaseSystem host).step ⟨protocol, env, .begin_ request⟩ before begun)
    (hrun : (leaseSystem host).Run labels begun after) :
    ∃ key operation, bindingKey request.bindingId = .ok key ∧
      outcome = granted protocol operation ∧
      (served ≠ none → operation.completionExecutionDigest =
        completionExecution host request.callId request.rootCallId request.toolName) ∧
      Running host key request operation begun.files ∧
      (Running host key request operation after.files ∨
        ∃ label ∈ labels, Completes host request operation label.request) ∧
      (Running host key request operation after.files → ∀ protocol env outcome,
        (∀ request written,
          serve host protocol env (.bind request) after.files ≠ .ok (outcome, some (key, written))) ∧
        (∀ release served, bindingKey release.bindingId = .ok key →
          serve host protocol env (.release release) after.files ≠ .ok (outcome, served)) ∧
        ∀ other served, bindingKey other.bindingId = .ok key →
          host.digest other.sessionId ≠ host.digest request.sessionId →
          serve host protocol env (.begin_ other) after.files = .ok (outcome, served) →
          outcome.kind ≠ some "granted") ∧
      ∀ key state, after.files key = some state → validateLoadedState host key state = .ok () := by
  obtain ⟨key, operation, hkey, houtcome, -, hrunning, hcall⟩ := begin_granted hserve hgranted
  have hbegun := hreach.next hstep
  have hsound : after.Sound host := reach_sound (hbegun.run hrun)
  have hrunning : Running host key request operation begun.files := by
    cases hstep
    exact hrunning
  refine ⟨key, operation, hkey, houtcome, hcall, hrunning, ?_, fun hrunning protocol env outcome =>
    ⟨fun _ _ => bind_refused hsound hrunning, fun _ _ => release_refused hrunning,
      fun _ _ hkey hother => begin_refused hrunning hkey hother⟩,
    fun key state hfile => (hsound key state hfile).valid⟩
  rcases hrun.keeps_or (Q := fun (label : LeaseLabel) _ => Completes host request operation label.request)
    step_sound step_keeps (reach_sound hbegun) hrunning with
    hkept | ⟨before, label, after, _, rfl, -, hcompletes⟩
  · exact .inl hkept
  · exact .inr ⟨label, List.mem_append_right _ List.mem_cons_self, hcompletes⟩

end

/-! ## The state of a new binding -/

theorem dot_not_mem {value : String} (h : isLowerHex value = true) : '.' ∉ value.toList := by
  intro hmem
  have := List.all_eq_true.mp h '.' hmem
  revert this
  decide

theorem bindingKey_append {key : String} (hkey : isHexDigest key = true)
    (hsize : nonce.utf8ByteSize = 32) (hnonce : isLowerHex nonce = true) :
    bindingKey ("wlb1." ++ key ++ "." ++ nonce) = .ok key := by
  have hhex : isLowerHex key = true := (Bool.and_eq_true _ _ ▸ hkey : _ ∧ _).2
  have hchars : ("wlb1." ++ key ++ "." ++ nonce).toList =
      "wlb1".toList ++ '.' :: (key.toList ++ '.' :: nonce.toList) := by
    simp [String.toList_append]
  have hpre : '.' ∉ "wlb1".toList := by decide
  have hsplit : splitAt ("wlb1." ++ key ++ "." ++ nonce) '.' = ["wlb1", key, nonce] := by
    rw [splitAt, hchars, List.splitOn_append_cons_self_of_not_mem hpre,
      List.splitOn_append_cons_self_of_not_mem (dot_not_mem hhex),
      List.splitOn_eq_singleton (dot_not_mem hnonce)]
    simp
  rw [bindingKey, hsplit]
  simp [hkey, hsize, hnonce]

theorem validOpaque_opaqueId (pre : String) (hsize : nonce.utf8ByteSize = 32)
    (hnonce : isLowerHex nonce = true) : validOpaque (opaqueId pre nonce) pre = true := by
  have hprefix : stripPrefix? (opaqueId pre nonce) (pre ++ ".") = some nonce.toList := by
    simp [stripPrefix?, opaqueId]
  rw [validOpaque, hprefix]
  simp [hsize, hnonce]

theorem newState_valid {host : Host} {env : Env} {prepared : PreparedBind} {now : Nat}
    (hkey : prepared.key = workspaceKeyOf host prepared.identity prepared.sessionDigest)
    (hhex : isHexDigest prepared.key = true) (hsession : isHexDigest prepared.sessionDigest = true)
    (hparent : prepared.parentSessionDigest.all isHexDigest = true)
    (hrequest : isHexDigest prepared.requestDigest = true)
    (hid : isHexDigest prepared.requestIdDigest = true)
    (hidentity : absoluteIdentity prepared.identity = true)
    (hnonces : ∀ nonce ∈ [env.workspaceNonce, env.bindingNonce, env.generationNonce],
      nonce.utf8ByteSize = 32 ∧ isLowerHex nonce = true)
    (hnow : now ≤ u64Add now leaseTtlSeconds) :
    validateLoadedState host prepared.key (newState env prepared now none) = .ok () := by
  obtain ⟨hworkspace, hbinding, hgeneration⟩ : (env.workspaceNonce.utf8ByteSize = 32 ∧
      isLowerHex env.workspaceNonce = true) ∧ (env.bindingNonce.utf8ByteSize = 32 ∧
      isLowerHex env.bindingNonce = true) ∧ env.generationNonce.utf8ByteSize = 32 ∧
      isLowerHex env.generationNonce = true := by simpa using hnonces
  have hvalidBinding : validBinding prepared.key (newState env prepared now none).binding = true := by
    simp only [validBinding, newState, validBindingId,
      bindingKey_append hhex hbinding.1 hbinding.2,
      validOpaque_opaqueId "wlg1" hgeneration.1 hgeneration.2, hsession, hparent, hrequest, hid, hnow]
    simp
  have hopaque : validOpaque (newState env prepared now none).workspaceId "wlw1" = true :=
    validOpaque_opaqueId "wlw1" hworkspace.1 hworkspace.2
  refine ensure_eq_ok.mpr ?_
  simp only [Bool.and_eq_true, decide_eq_true_eq]
  refine ⟨⟨⟨⟨⟨⟨⟨⟨⟨⟨⟨rfl, rfl⟩, hkey⟩, hhex⟩, hopaque⟩, hvalidBinding⟩, ?_⟩, ?_⟩, hidentity⟩, ?_⟩, ?_⟩,
    rfl⟩
  · exact Nat.zero_le _
  · exact Nat.zero_le _
  · exact List.nodup_nil
  · exact List.nodup_nil

theorem serve_bind_first {host : Host} {protocol : ProtocolGeneration} {env : Env}
    {request : BindRequest} {prepared : PreparedBind} {files : Files}
    (hprepared : prepareBind host protocol env request = .ok (some prepared))
    (hfile : files prepared.key = none) (hnow : env.nowEpoch = .ok now)
    (htakeover : request.takeoverConflict = none)
    (hrefuse : refuseBind host protocol env request prepared false now none = .ok none)
    (hwrite : writeState host prepared.key (newState env prepared now none) =
      .ok (newState env prepared now none)) :
    serve host protocol env (.bind request) files =
      .ok (bound protocol (newState env prepared now none),
        some (prepared.key, newState env prepared now none)) := by
  have hinstall : takeoverBinding host protocol env request prepared now none =
      .ok (bound protocol (newState env prepared now none),
        some (newState env prepared now none)) := by
    rw [takeoverBinding, htakeover]
    dsimp only
    rw [installBinding, hrefuse, ok_bind]
    dsimp only
    rw [hwrite, ok_bind]
    rfl
  have hlocked : bindLocked host protocol env request prepared none =
      .ok (bound protocol (newState env prepared now none),
        some (newState env prepared now none)) := by
    rw [bindLocked, readState, ok_bind, hnow, ok_bind, bindRetry, ok_bind]
    exact hinstall
  rw [serve, hprepared, ok_bind]
  dsimp only
  rw [underKey, hfile, hlocked]
  rfl

theorem validateLoadedState_operations {host : Host} {key : String} {state : State}
    {operations : List OperationRecord} (hvalid : validateLoadedState host key state = .ok ())
    (hlength : operations.length ≤ maxOperations) (hids : (operations.map (·.operationId)).Nodup)
    (hfences : (operations.map (·.fence)).Nodup) (hall : operations.all validOperation = true) :
    validateLoadedState host key { state with operations := operations } = .ok () := by
  have hbase := ensure_eq_ok.mp hvalid
  refine ensure_eq_ok.mpr ?_
  simp only [Bool.and_eq_true, decide_eq_true_eq] at hbase ⊢
  exact ⟨⟨⟨⟨⟨⟨hbase.1.1.1.1.1.1, hlength⟩, hbase.1.1.1.1.2⟩, hbase.1.1.1.2⟩, hids⟩, hfences⟩, hall⟩

theorem beginLocked_granted {host : Host} {protocol : ProtocolGeneration} {env : Env}
    {request : BeginRequest} {key : String} {state : State} {now : Nat}
    (hvalid : validateLoadedState host key state = .ok ())
    (hdenial : bindingDenial host protocol state request.toCommon request.toBindingRef = none)
    (hidentity : revalidateManagedIdentity env state = .ok ())
    (htarget : requireTarget host protocol state request = .ok ())
    (hmode : request.bindingState = state.binding.mode)
    (hfence : ¬ (state.binding.mode = .unmanaged ||
      (protocol.suppressesReadOnlyFence && toolIsReadOnly request)) = true)
    (hnow : env.nowEpoch = .ok now) (hlive : now < state.binding.expiresAtEpoch)
    (hfind : state.operations.find? (·.requestIdDigest = host.digest request.requestId) = none)
    (hroom : (roomFor state.operations).length < maxOperations)
    {digest : String} (hdigest : host.digestValue "workspace-begin" (.object
      [("request", .string (executionDigest host request)),
        ("binding_id", .string request.bindingId), ("generation", .string request.generation)]) =
      digest)
    (hwrite : writeState host key { state with
        operations := roomFor state.operations ++ [newOperation host env request digest now] } =
      .ok { state with
        operations := roomFor state.operations ++ [newOperation host env request digest now] }) :
    beginLocked host protocol env request key (some state) =
      .ok (granted protocol (newOperation host env request digest now), some { state with
        operations := roomFor state.operations ++ [newOperation host env request digest now] }) := by
  rw [beginLocked, readRequiredState_some hvalid, ok_bind, hdenial]
  dsimp only
  rw [hidentity, ok_bind, htarget, ok_bind, (ensure_eq_ok (u := ())).mpr hmode, ok_bind,
    if_neg hfence, hnow, ok_bind, if_neg (Nat.not_le.mpr hlive), beginOperation, hfind]
  dsimp only
  rw [if_neg (Nat.not_le.mpr hroom), hdigest, hwrite, ok_bind]
  rfl

theorem newOperation_valid {host : Host} {env : Env} {request : BeginRequest} {digest : String}
    (hoperation : env.operationNonce.utf8ByteSize = 32 ∧ isLowerHex env.operationNonce = true)
    (hfence : env.fenceNonce.utf8ByteSize = 32 ∧ isLowerHex env.fenceNonce = true)
    (hid : isHexDigest (host.digest request.requestId) = true) (hdigest : isHexDigest digest = true)
    (hexecution : isHexDigest (executionDigest host request) = true) (hcompletion : isHexDigest
      (completionExecution host request.callId request.rootCallId request.toolName) = true) :
    validOperation (newOperation host env request digest now) = true := by
  have hactive : (newOperation host env request digest now).isActive = true := rfl
  rw [validOperation, hactive, if_pos rfl]
  simp [newOperation, validOpaque_opaqueId, hoperation, hfence, hid, hdigest, hexecution, hcompletion]

/-! ## A run -/

def sampleHost : Host where
  digest text := String.ofList (List.replicate 64 (if text = "alice" then 'a' else 'b'))
  digestValue _ _ := String.ofList (List.replicate 64 'c')
  keyedValue _ _ := String.ofList (List.replicate 64 'd')
  samePath a b := a = b
  stateBytes _ := 2048

def sampleIdentity : ManagedIdentity := ⟨"/repo", 1, 2, "/repo/.git", 1, 3, "/repo/.git", 1, 3⟩

def sampleNonce : String := String.ofList (List.replicate 32 '0')

def sampleEnv (now : Nat) : Env where
  now := some now
  resolved := .ok (.managed sampleIdentity)
  observed := .ok sampleIdentity
  dirty := .ok false
  head := .ok ("main", "0")
  workspaceNonce := sampleNonce
  bindingNonce := sampleNonce
  generationNonce := sampleNonce
  operationNonce := sampleNonce
  fenceNonce := sampleNonce

def sampleBind : BindRequest where
  version := 1
  requestId := "bind-1"
  sessionId := "alice"
  parentSessionId := none
  cwd := some "/repo"
  target := none
  takeoverCapability := false
  takeoverConflict := none
  source := .startup

def sampleBinding : BindingRef where
  bindingId := "wlb1." ++ String.ofList (List.replicate 64 'd') ++ "." ++ sampleNonce
  workspaceId := "wlw1." ++ sampleNonce
  generation := "wlg1." ++ sampleNonce

def sampleBegin : BeginRequest where
  version := 1
  requestId := "begin-1"
  sessionId := "alice"
  parentSessionId := none
  toBindingRef := sampleBinding
  bindingState := .owned
  callId := "call-1"
  rootCallId := "call-1"
  toolName := "Bash"
  arguments := .object []
  nested := false
  anchorCwd := none
  target := none
  targetToken := none

def sampleRelease : ReleaseRequest where
  version := 1
  requestId := "release-1"
  sessionId := "alice"
  parentSessionId := none
  toBindingRef := sampleBinding

def sampleServed (disk : Disk) (now : Nat) (request : Request) : Disk :=
  ⟨disk.files.after (serve sampleHost .v1 (sampleEnv now) request disk.files), now⟩

def sampleBound : Disk := sampleServed ⟨fun _ => none, 0⟩ 100 (.bind sampleBind)

def sampleBegun : Disk := sampleServed sampleBound 101 (.begin_ sampleBegin)

/-- The release after the binding expired. -/
def sampleReleased : Disk := sampleServed sampleBegun 200 (.release sampleRelease)

theorem sample_step (h : disk.now ≤ now) :
    LeaseStep sampleHost ⟨.v1, sampleEnv now, request⟩ disk (sampleServed disk now request) :=
  .serve fun _ hnow => Option.some.inj hnow ▸ h

/-- A digest of one letter. -/
def letters (c : Char) : String := String.ofList (List.replicate 64 c)

theorem isLowerHex_replicate (n : Nat) {c : Char}
    (hc : (isAsciiHexDigit c && !isAsciiUpper c) = true) :
    isLowerHex (String.ofList (List.replicate n c)) = true := by
  rw [isLowerHex, String.toList_ofList]
  simp [hc]

theorem isHexDigest_letters {c : Char} (hc : c ∈ ['a', 'b', 'c', 'd']) :
    isHexDigest (letters c) = true := by
  have hsize : (letters c).utf8ByteSize = 64 := by
    simp only [List.mem_cons, List.not_mem_nil, or_false] at hc
    rcases hc with rfl | rfl | rfl | rfl <;> decide
  have hchars : (isAsciiHexDigit c && !isAsciiUpper c) = true := by
    simp only [List.mem_cons, List.not_mem_nil, or_false] at hc
    rcases hc with rfl | rfl | rfl | rfl <;> decide
  rw [isHexDigest, hsize, letters, isLowerHex_replicate 64 hchars]
  rfl

theorem sampleNonce_hex : sampleNonce.utf8ByteSize = 32 ∧ isLowerHex sampleNonce = true :=
  ⟨by decide, isLowerHex_replicate 32 (by decide)⟩

def samplePrepared (session requestId : Char) : PreparedBind where
  identity := .managed sampleIdentity
  key := letters 'd'
  sessionDigest := letters session
  parentSessionDigest := none
  requestDigest := letters 'c'
  requestIdDigest := letters requestId

theorem samplePrepared_valid {host : Host} {session requestId : Char} {now : Nat}
    (hkeyed : ∀ text value, host.keyedValue text value = letters 'd')
    (hletters : session ∈ ['a', 'b', 'c', 'd'] ∧ requestId ∈ ['a', 'b', 'c', 'd'])
    (hnow : now ≤ u64Add now leaseTtlSeconds) :
    validateLoadedState host (letters 'd')
      (newState (sampleEnv now) (samplePrepared session requestId) now none) = .ok () := by
  have habsolute : absoluteIdentity (.managed sampleIdentity) = true := by decide
  refine @newState_valid host (sampleEnv now) (samplePrepared session requestId) now (hkeyed _ _).symm
    (isHexDigest_letters (by simp)) (isHexDigest_letters hletters.1) rfl
    (isHexDigest_letters (by simp)) (isHexDigest_letters hletters.2) habsolute ?_ hnow
  intro nonce hmem
  have hnonce : nonce = sampleNonce := by simpa [sampleEnv] using hmem
  exact hnonce ▸ sampleNonce_hex

theorem serve_sampleBind {host : Host} {session requestId : Char} {now : Nat}
    (hsession : host.digest "alice" = letters session)
    (hrequestId : host.digest "bind-1" = letters requestId)
    (hvalue : ∀ text value, host.digestValue text value = letters 'c')
    (hkeyed : ∀ text value, host.keyedValue text value = letters 'd')
    (hbytes : ∀ state, host.stateBytes state ≤ stateMaxBytes)
    (hletters : session ∈ ['a', 'b', 'c', 'd'] ∧ requestId ∈ ['a', 'b', 'c', 'd'])
    (hnow : now ≤ u64Add now leaseTtlSeconds) :
    serve host .v1 (sampleEnv now) (.bind sampleBind) (fun _ => none) =
      .ok (bound .v1 (newState (sampleEnv now) (samplePrepared session requestId) now none),
        some (letters 'd', newState (sampleEnv now) (samplePrepared session requestId) now none)) := by
  have hkey : workspaceKeyOf host (.managed sampleIdentity) (letters session) = letters 'd' :=
    hkeyed _ _
  have hvalidate : validateBind .v1 sampleBind = .ok () := ok_of_toOption (by decide)
  have hresolve : resolveBind host (sampleEnv now) sampleBind = .ok (.managed sampleIdentity) := by
    have habsolute : startsWith "/repo" '/' = true := by decide
    show (do ensure (startsWith "/repo" '/') (cwdInvalid "workspace cwd must be an absolute path")
             (sampleEnv now).resolved) = _
    rw [(ensure_eq_ok (u := ())).mpr habsolute]
    rfl
  have hprepared : prepareBind host .v1 (sampleEnv now) sampleBind =
      .ok (some (samplePrepared session requestId)) := by
    rw [prepareBind, hvalidate, ok_bind, hresolve, ok_bind, if_neg (by decide)]
    dsimp only
    rw [show sampleBind.sessionId = "alice" from rfl, show sampleBind.requestId = "bind-1" from rfl,
      hsession, hrequestId, hkey, hvalue,
      (ensure_eq_ok (u := ())).mpr (isHexDigest_letters (by simp))]
    rfl
  have hroom : decide (host.stateBytes
      (newState (sampleEnv now) (samplePrepared session requestId) now none) ≤ stateMaxBytes) =
      true := decide_eq_true (hbytes _)
  refine serve_bind_first hprepared rfl rfl rfl rfl ?_
  show writeState host (letters 'd') _ = _
  rw [writeState, samplePrepared_valid hkeyed hletters hnow, ok_bind,
    (ensure_eq_ok (u := ())).mpr hroom]
  rfl

theorem sampleBound_files : sampleBound.files = Function.update (fun _ => none) (letters 'd')
    (some (newState (sampleEnv 100) (samplePrepared 'a' 'b') 100 none)) := by
  have hserve : serve sampleHost .v1 (sampleEnv 100) (.bind sampleBind) (fun _ => none) = _ :=
    @serve_sampleBind sampleHost 'a' 'b' 100 (by decide) (by decide)
      (fun _ _ => rfl) (fun _ _ => rfl) (fun _ => show 2048 ≤ stateMaxBytes by decide) (by simp)
      (by decide)
  unfold sampleBound sampleServed
  dsimp only
  rw [hserve]
  rfl

theorem sampleBegin_granted : ∃ operation written,
    beginLocked sampleHost .v1 (sampleEnv 101) sampleBegin (letters 'd')
      (some (newState (sampleEnv 100) (samplePrepared 'a' 'b') 100 none)) =
        .ok (granted .v1 operation, some written) := by
  have hvalid := @samplePrepared_valid sampleHost 'a' 'b' 100 (fun _ _ => rfl) (by simp) (by decide)
  have hid : sampleHost.digest sampleBegin.requestId = letters 'b' := by decide
  have hoperation : validOperation
      (newOperation sampleHost (sampleEnv 101) sampleBegin (letters 'c') 101) = true :=
    newOperation_valid sampleNonce_hex sampleNonce_hex (hid ▸ isHexDigest_letters (by simp))
      (isHexDigest_letters (by simp)) (@isHexDigest_letters 'c' (by simp))
      (@isHexDigest_letters 'c' (by simp))
  have hwritten := @validateLoadedState_operations _ _ _
    [newOperation sampleHost (sampleEnv 101) sampleBegin (letters 'c') 101] hvalid
    (show 1 ≤ maxOperations by decide) (List.nodup_singleton _) (List.nodup_singleton _)
    (by simpa using hoperation)
  have hidentity : revalidateManagedIdentity (sampleEnv 101)
      (newState (sampleEnv 100) (samplePrepared 'a' 'b') 100 none) = .ok () := by
    show ensure (sampleIdentity = sampleIdentity) identityChanged = .ok ()
    exact ensure_eq_ok.mpr rfl
  have htarget : requireTarget sampleHost .v1
      (newState (sampleEnv 100) (samplePrepared 'a' 'b') 100 none) sampleBegin = .ok () := by
    show ensure _ wireInvalid = .ok ()
    exact ensure_eq_ok.mpr rfl
  refine ⟨_, _, @beginLocked_granted sampleHost .v1 (sampleEnv 101) sampleBegin (letters 'd') _ 101
    hvalid (by decide) hidentity htarget rfl (by decide) rfl (by decide) rfl (by decide)
    (letters 'c') rfl ?_⟩
  rw [writeState]
  exact (congrArg (· >>= _) hwritten).trans rfl

/-- The release does not end the operation that the session was granted. -/
theorem running_operation_kept_sample : ∃ operation,
    Running sampleHost (String.ofList (List.replicate 64 'd')) sampleBegin operation
      sampleReleased.files := by
  obtain ⟨outcome, served, hserve, hgranted⟩ : ∃ outcome served,
      serve sampleHost .v1 (sampleEnv 101) (.begin_ sampleBegin) sampleBound.files =
        .ok (outcome, served) ∧ outcome.kind = some "granted" := by
    have hkey : requestKey .v1 sampleBegin.toCommon sampleBegin.toBindingRef sampleBegin.texts =
        .ok (letters 'd') := ok_of_toOption (by decide +kernel)
    obtain ⟨operation, written, hlocked⟩ := sampleBegin_granted
    refine ⟨granted .v1 operation, some (letters 'd', written), ?_, kind_granted⟩
    rw [sampleBound_files, serve, hkey, ok_bind, underKey, Function.update_self, hlocked]
    rfl
  have hbound : (leaseSystem sampleHost).Reach sampleBound :=
    (Lts.Reach.init (S := leaseSystem sampleHost) (s := ⟨fun _ => none, 0⟩) fun _ => rfl).next
      (sample_step (Nat.zero_le 100))
  have hbegin : (leaseSystem sampleHost).step ⟨.v1, sampleEnv 101, .begin_ sampleBegin⟩ sampleBound
      sampleBegun := sample_step (by decide)
  have hrelease : (leaseSystem sampleHost).step ⟨.v1, sampleEnv 200, .release sampleRelease⟩
      sampleBegun sampleReleased := sample_step (by decide)
  obtain ⟨key, operation, hkey, -, -, -, hkept, -⟩ :=
    running_operation_kept hbound hserve hgranted hbegin (.single hrelease)
  obtain rfl : key = String.ofList (List.replicate 64 'd') :=
    Except.ok.inj (hkey.symm.trans (by decide +kernel))
  rcases hkept with hkept | ⟨label, hlabel, hcompletes⟩
  · exact ⟨operation, hkept⟩
  · cases List.mem_singleton.mp hlabel
    cases hcompletes

end NilsCli.Workspace
