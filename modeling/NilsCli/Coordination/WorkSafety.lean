import NilsCli.Coordination.Refinement

/-!
# Safety of claims and leases

In every reachable registry the leases in progress of different sessions are disjoint, every
lease in progress is covered by a claim of its own incarnation, and along every run a lease ends
once.
-/

namespace NilsCli.Coordination

open Lib

variable {codec : Codec} {env : Env} {renews : OperationLease → Prop} {r r' : Registry}

/-! ## The invariant of reachable states -/

/-- What holds of every reachable state. -/
structure Sound (s : State) : Prop where
  work : Work s.registry
  issued : Issued s.issued s.registry

theorem Sound.step {l : (system codec).Label} {s t : (system codec).State} (h : Sound s)
    (hst : (system codec).step l s t) : Sound t := by
  obtain ⟨huuid, rfl⟩ := hst
  obtain ⟨hwork, hissued⟩ := h.work.sectionMoves h.issued huuid (exec_moves h.work l.2)
  exact ⟨hwork, hissued⟩

theorem sound_of_reach {s : State} (h : (system codec).Reach s) : Sound s := by
  refine Lts.Reach.invariant (S := system codec) ?_ (fun l s t hs => Sound.step hs) h
  rintro s rfl
  exact ⟨Work.empty, by simp [Registry.empty], by simp [Registry.empty], by simp [Registry.empty]⟩

/-! ## The life of a lease over a run -/

structure Ages (x y : OperationLease) : Prop where
  leaseId : y.leaseId = x.leaseId
  revision : x.revision ≤ y.revision
  terminal : ¬ x.nonterminal →
    y.state = x.state ∧ y.outcome = x.outcome ∧ y.revision = x.revision

theorem Ages.refl (x : OperationLease) : Ages x x := ⟨rfl, le_refl _, fun _ => ⟨rfl, rfl, rfl⟩⟩

theorem Ages.trans (x y z : OperationLease) (h : Ages x y) (h' : Ages y z) : Ages x z where
  leaseId := h'.leaseId.trans h.leaseId
  revision := h.revision.trans h'.revision
  terminal hx := by
    obtain ⟨hs, ho, hr⟩ := h.terminal hx
    have hy : ¬ y.nonterminal := by rwa [OperationLease.nonterminal, hs]
    obtain ⟨hs', ho', hr'⟩ := h'.terminal hy
    exact ⟨hs'.trans hs, ho'.trans ho, hr'.trans hr⟩

theorem LeaseStep.ages {pends : OperationLease → Prop} {x y : OperationLease}
    (h : LeaseStep renews pends x y) : Ages x y :=
  ⟨h.leaseId, h.revision_le, h.terminal⟩

theorem Move.leaseSteps (h : Move codec env renews r r') :
    Evolves (LeaseStep renews fun x => Undrained r x) r.operations r'.operations := by
  cases h with
  | mail | fingerprint | dropCursors | keepCursor | dropReceipts | claims | retireClaims | dropEvents | addEvent | brokers =>
    exact Evolves.refl fun x _ => .stay x
  | store key digest outcome hop free hstore =>
    obtain ⟨receipts, evictions, rfl, -⟩ := storeReceipt_spec hstore
    exact Evolves.refl fun x _ => .stay x
  | accept envelope outcome free hstore =>
    obtain ⟨receipts, evictions, rfl, -⟩ := storeReceipt_spec hstore
    exact Evolves.refl fun x _ => .stay x
  | drain event lease now hnow hevent hlease accepts hstore =>
    obtain ⟨receipts, evictions, rfl, -⟩ := storeReceipt_spec hstore
    refine Evolves.of_updateFirst (fun x _ => .stay x) fun x hx => ?_
    obtain rfl : x = lease := Option.some.inj (hx.symm.trans hlease)
    exact completeLease_step accepts
  | leases operations he => exact he
  | endWork sessionId ends now => exact Evolves.of_map fun x _ => endLease_step _ _ _ _ _ _

theorem Moves.ages (h : Moves codec env renews r r') :
    Evolves Ages r.operations r'.operations := by
  induction h with
  | refl => exact Evolves.refl fun x _ => .refl x
  | tail _ hm ih => exact ih.trans Ages.trans (hm.leaseSteps.mono fun _ _ hs => hs.ages)

def Aged (s t : State) : Prop :=
  s.issued ⊆ t.issued ∧ ∀ y ∈ t.registry.operations, y.leaseId ∈ s.issued →
    ∃ x ∈ s.registry.operations, Ages x y

theorem Aged.trans {s t u : State} (h : Aged s t) (h' : Aged t u) : Aged s u := by
  refine ⟨List.Subset.trans h.1 h'.1, fun z hz hid => ?_⟩
  obtain ⟨y, hy, hyz⟩ := h'.2 z hz (h.1 hid)
  obtain ⟨x, hx, hxy⟩ := h.2 y hy (hyz.leaseId ▸ hid)
  exact ⟨x, hx, hxy.trans _ _ _ hyz⟩

theorem Add.lease_of_issued {ids : List String} (h : Add env r r') (huuid : env.uuid ∉ ids)
    {y : OperationLease} (hy : y ∈ r'.operations) (hid : y.leaseId ∈ ids) : y ∈ r.operations := by
  cases h with
  | claim | message => exact hy
  | lease claim lease hd =>
    rcases List.mem_append.mp hy with hy | hy
    · exact hy
    · obtain rfl := List.mem_singleton.mp hy
      exact absurd (hd.fresh ▸ hid) huuid

theorem aged_of_step {l : (system codec).Label} {s t : (system codec).State} (h : Sound s)
    (hst : (system codec).step l s t) : Aged s t := by
  obtain ⟨huuid, rfl⟩ := hst
  refine ⟨List.subset_cons_self _ _, fun z hz hid => ?_⟩
  obtain ⟨r₁, r₂, h₁, hadd, h₂⟩ := @exec_moves codec l.1 _ h.work l.2
  obtain ⟨y, hy, hyz⟩ := (Moves.ages h₂).mem hz
  have hy₁ : y ∈ r₁.operations := by
    rcases hadd with rfl | hadd
    · exact hy
    · exact hadd.lease_of_issued huuid hy (hyz.leaseId ▸ hid)
  obtain ⟨x, hx, hxy⟩ := (Moves.ages h₁).mem hy₁
  exact ⟨x, hx, hxy.trans _ _ _ hyz⟩

theorem aged_of_run {ls : List (system codec).Label} {s t : State}
    (hr : (system codec).Run ls s t) (h : Sound s) : Aged s t := by
  refine Lts.Run.relates (S := system codec) (I := Sound) (R := Aged) ?_ ?_ ?_ ?_ hr h
  · exact fun _ _ _ hs => Sound.step hs
  · exact fun s => ⟨List.Subset.refl _, fun y hy _ => ⟨y, hy, .refl y⟩⟩
  · exact fun _ _ _ => Aged.trans
  · exact fun _ _ _ hs => aged_of_step hs

/-! ## A sample host

Two sessions of one host, for the witnesses of this and later modules. -/

def sampleCodec : Codec where
  receiptBytes _ := 600
  contextBytes _ := 700
  receiptKeyText key := key.principal ++ ":" ++ key.incarnation ++ ":" ++ key.key
  servicePrincipal address := "service:" ++ address.machine ++ ":" ++ address.serviceId
  compatibilityIdText
    | .generation _ generation => "generation-" ++ toString generation
    | .message id => id
  isUuid text := text.utf8ByteSize = 36
  isMailboxReminderPrompt text := startsWith text '['
  fixedPrompt := "[mailbox.wake]"
  quotaAlertNotice := "[mailbox.alert]"
  unreadPrompt count := "[mailbox.wake] " ++ toString count ++ " unread"
  explainedSummary messages := "[mailbox.wake] " ++ toString messages.length ++ " unread"

def sampleSession (id : String) (id_ne : id ≠ "") : SessionRecord where
  id := id
  id_ne := id_ne
  agent := "claude"
  createdAt := "1970-01-01T00:15:00Z"
  createdAtMillis := some 900000
  cwd := "/work/" ++ id
  runtime := some ⟨"launch-1", 1⟩

theorem alpha_ne : "alpha" ≠ "" := by decide

theorem beta_ne : "beta" ≠ "" := by decide

def sampleEnv (now : Int) (uuid : String) : Env where
  lockNow := now
  now := now
  replayNow := now
  nowMillis := now * 1000
  uuid := uuid
  capabilityToken sessionId _ := some ("token-" ++ sessionId)
  heartbeatFresh _ _ := true
  heartbeatStale _ _ _ _ := false
  loadSessionRecord id := if h : id ≠ "" then some (sampleSession id h) else none
  runtimeEvidence record := some ⟨.running, record.id, record.id⟩
  runtimeStatusForIdentity _ := .running
  controllerState _ := some ⟨.working, 1, none, none, some ⟨some "turn-1", "00:20:00"⟩, none⟩
  stateForView _ := some ⟨.working, 1, none, none, some ⟨some "turn-1", "00:20:00"⟩, none⟩
  descendantStatus _ := .stopped
  sessionDirMissing _ := false
  sessionEntries := some [⟨some true, some "alpha"⟩, ⟨some true, some "beta"⟩]
  worktreeFingerprint _ _ cwd := some ("hmac-sha256:1:" ++
    String.ofList (List.replicate 64 (if cwd = "/work/alpha" then 'a' else 'b')))
  freshKey := "0123456789abcdef0123456789abcdef"
  physicalTargetsValid _ _ _ := true
  machine := "host"
  capabilityRevalidated _ _ := true
  notificationPolicy _ _ := some (false, 0, 80)
  noticeWritersEnabled := true

def sampleContext (path : String) : WorkContextInput where
  schemaVersion := workContextInputVersion
  intent := "edit"
  tier := "direct"
  repositories := ["acme/app"]
  worktrees := []
  providerRefs := []
  planRefs := []
  scopes := [⟨.pathPrefix, "acme/app", path⟩]
  summary := "edit"

def sampleAdmission (id : String) (id_ne : id ≠ "") (path : String) (start : Int) :
    List (Env × Section) :=
  let record := sampleSession id id_ne
  [(sampleEnv start (id ++ "-1"), .provision ⟨record, none, "token-" ++ id, true⟩),
    (sampleEnv (start + 1) (id ++ "-2"),
      .claim ⟨record, "launch-1", sampleContext path, none, "claim-key-1"⟩),
    (sampleEnv (start + 2) (id ++ "-3"),
      .admitOperation ⟨record, "launch-1", "token-" ++ id, id ++ "-2", 1, "edit", "execution-token",
        [⟨.pathPrefix, "acme/app", path⟩], [], [], [], none, "admit-key-1"⟩)]

def sampleRun : List (Env × Section) :=
  sampleAdmission "alpha" alpha_ne "src" 1000 ++ sampleAdmission "beta" beta_ne "docs" 1010

def sampleState : State := execAll sampleCodec sampleRun ⟨Registry.empty, []⟩

theorem reach_sampleState : (system sampleCodec).Reach sampleState :=
  reach_execAll (by decide +kernel)

theorem sampleState_leases : ∃ lease ∈ sampleState.registry.operations,
    ∃ lease' ∈ sampleState.registry.operations, (lease.sessionId = "alpha" ∧ lease.nonterminal) ∧
      lease'.sessionId = "beta" ∧ lease'.nonterminal := by
  decide +kernel

/-! ## Results -/

/-- Two leases in progress of different sessions have no overlapping targets and share no
provider object. -/
theorem operations_disjoint {s : State} (h : (system codec).Reach s) {lease lease' : OperationLease}
    (hl : lease ∈ s.registry.operations) (hl' : lease' ∈ s.registry.operations)
    (hn : lease.nonterminal) (hn' : lease'.nonterminal) (hne : lease.sessionId ≠ lease'.sessionId) :
    (∀ target ∈ lease.targets, ∀ target' ∈ lease'.targets, ¬ scopesOverlap target target') ∧
      ∀ reference ∈ lease.providerTargets, reference ∉ lease'.providerTargets := by
  have hsep := (sound_of_reach h).work.separate lease hl lease' hl' hn hn' hne
  exact ⟨hsep.targets, hsep.providers⟩

theorem operations_disjoint_sample :
    ∃ lease ∈ sampleState.registry.operations, ∃ lease' ∈ sampleState.registry.operations,
      (lease.sessionId = "alpha" ∧ lease'.sessionId = "beta") ∧
      (∀ target ∈ lease.targets, ∀ target' ∈ lease'.targets, ¬ scopesOverlap target target') ∧
      ∀ reference ∈ lease.providerTargets, reference ∉ lease'.providerTargets := by
  obtain ⟨lease, hl, lease', hl', ⟨ha, hn⟩, hb, hn'⟩ := sampleState_leases
  exact ⟨lease, hl, lease', hl', ⟨ha, hb⟩,
    operations_disjoint reach_sampleState hl hl' hn hn' (by rw [ha, hb]; decide)⟩

/-- A session has at most one active claim and one lease in progress, and every lease in progress
names a claim of its own session and incarnation that covers its targets. -/
theorem claims_and_leases_structured {s : State} (h : (system codec).Reach s) :
    (∀ claim ∈ s.registry.claims, ∀ claim' ∈ s.registry.claims, claim.state = .active →
      claim'.state = .active → claim.sessionId = claim'.sessionId → claim = claim') ∧
    (∀ lease ∈ s.registry.operations, ∀ lease' ∈ s.registry.operations, lease.nonterminal →
      lease'.nonterminal → lease.sessionId = lease'.sessionId → lease = lease') ∧
    (s.registry.claims.Nodup ∧ s.registry.operations.Nodup) ∧
    ∀ lease ∈ s.registry.operations, lease.nonterminal → ∃ claim ∈ s.registry.claims,
      claim.claimId = lease.claimId ∧ claim.sessionId = lease.sessionId ∧
      claim.sessionIncarnation = lease.sessionIncarnation ∧
      ∀ target ∈ lease.targets, ∃ scope ∈ claim.scopes, scopeCovers scope target := by
  have hwork := (sound_of_reach h).work
  refine ⟨hwork.claimAlone, hwork.leaseAlone, ⟨hwork.claimIds.of_map _, hwork.leaseIds.of_map _⟩, ?_⟩
  intro lease hl hn
  obtain ⟨claim, hc, -, hcov⟩ := hwork.held lease hl hn
  exact ⟨claim, hc, hcov.claimId.symm, hcov.sessionId.symm, hcov.incarnation.symm, hcov.targets⟩

theorem claims_and_leases_structured_sample :
    ∃ lease ∈ sampleState.registry.operations, lease.nonterminal ∧
      ∃ claim ∈ sampleState.registry.claims,
        claim.claimId = lease.claimId ∧ claim.sessionId = lease.sessionId ∧
        claim.sessionIncarnation = lease.sessionIncarnation ∧
        ∀ target ∈ lease.targets, ∃ scope ∈ claim.scopes, scopeCovers scope target := by
  obtain ⟨lease, hl, _, _, ⟨-, hn⟩, -⟩ := sampleState_leases
  exact ⟨lease, hl, hn, (claims_and_leases_structured reach_sampleState).2.2.2 lease hl hn⟩

/-- Along every run the revision of a lease does not decrease, and a terminal lease keeps its
state, outcome and revision. -/
theorem lease_ends_once {s t : State} {ls : List (Env × Section)} (h : (system codec).Reach s)
    (hr : (system codec).Run ls s t) {lease lease' : OperationLease}
    (hl : lease ∈ s.registry.operations) (hl' : lease' ∈ t.registry.operations)
    (hid : lease'.leaseId = lease.leaseId) :
    lease.revision ≤ lease'.revision ∧ (¬ lease.nonterminal → lease'.state = lease.state ∧
      lease'.outcome = lease.outcome ∧ lease'.revision = lease.revision) := by
  have hs := sound_of_reach h
  obtain ⟨x, hx, hages⟩ := (aged_of_run hr hs).2 lease' hl' (hid ▸ hs.issued.leases lease hl)
  obtain rfl : x = lease := eq_of_key_eq hs.work.leaseIds hx hl (hages.leaseId.symm.trans hid)
  exact ⟨hages.revision, hages.terminal⟩

/-- The first session completes its operation. -/
def sampleCompleted : State :=
  execAll sampleCodec
    [(sampleEnv 1020 "alpha-4",
        .complete ⟨"alpha", "launch-1", "alpha-3", 1, "execution-token", .pass, "complete-key"⟩),
      (sampleEnv 1020 "alpha-5", .drain)] sampleState

/-- Then it stops, and its broker is revoked. -/
def sampleRevocation : List (Env × Section) :=
  [(sampleEnv 1030 "alpha-6", .revoke (sampleSession "alpha" alpha_ne)),
    (sampleEnv 1031 "alpha-7", .clean)]

theorem lease_ends_once_sample :
    ∃ lease ∈ sampleCompleted.registry.operations,
      ∃ lease' ∈ (execAll sampleCodec sampleRevocation sampleCompleted).registry.operations,
        (lease.state = .completed ∧ lease'.leaseId = lease.leaseId) ∧
        lease.revision ≤ lease'.revision ∧ (¬ lease.nonterminal → lease'.state = lease.state ∧
          lease'.outcome = lease.outcome ∧ lease'.revision = lease.revision) := by
  have hreach : (system sampleCodec).Reach sampleCompleted :=
    reach_sampleState.run (run_execAll (by decide +kernel)
      (by rw [sampleState, issued_execAll]; decide +kernel))
  have hrun : (system sampleCodec).Run sampleRevocation sampleCompleted
      (execAll sampleCodec sampleRevocation sampleCompleted) :=
    run_execAll (by decide +kernel)
      (by rw [sampleCompleted, issued_execAll, sampleState, issued_execAll]; decide +kernel)
  have hpair : ∃ lease ∈ sampleCompleted.registry.operations,
      ∃ lease' ∈ (execAll sampleCodec sampleRevocation sampleCompleted).registry.operations,
        lease.state = .completed ∧ lease'.leaseId = lease.leaseId := by decide +kernel
  obtain ⟨lease, hl, lease', hl', hstate, hid⟩ := hpair
  exact ⟨lease, hl, lease', hl', ⟨hstate, hid⟩, lease_ends_once hreach hrun hl hl' hid⟩

end NilsCli.Coordination
