import NilsCli.Coordination.MaintenanceMoves

/-!
# Requests about work as moves

Each body of `claims.rs` and `broker.rs` is a sequence of moves, with at most one new claim or
lease.
-/

namespace NilsCli.Coordination

open Lib

variable {digest : RequestDigest} {claims : List WorkContextRecord}
  {input context candidate : WorkContextInput} {fingerprint : String} {lease : OperationLease}
  {evidence : OperatorReconcileEvidence}

variable {key : ReceiptKey} {outcome : Outcome} {sessionId incarnation : String} {now : Int}
  {args : ClaimRevisionArgs}

variable {codec : Codec} {env : Env} {renews : OperationLease → Prop} {r r' r₁ : Registry}

/-! ## Sections -/

namespace SectionMoves

theorem of_moves (h : Moves codec env renews r r') : SectionMoves codec env renews r r' :=
  ⟨r', r', h, .inl rfl, .refl⟩

theorem refl (r : Registry) : SectionMoves codec env renews r r := of_moves .refl

theorem after (h : Moves codec env renews r r₁) (h' : SectionMoves codec env renews r₁ r') :
    SectionMoves codec env renews r r' := by
  obtain ⟨x, y, hx, hadd, hy⟩ := h'
  exact ⟨x, y, h.trans hx, hadd, hy⟩

end SectionMoves

theorem commit_induction {P : Registry → Prop} {body : Except CliError (Registry × Outcome)}
    (hr : P r) (h : ∀ r' outcome, body = .ok (r', outcome) → P r') : P (commit r body).1 := by
  unfold commit
  split
  case h_1 r' outcome => exact h r' outcome rfl
  case h_2 => exact hr

/-! ## Guards -/

theorem receiptFree_of_replay
    (h : idempotencyReplay env r key digest = .ok none) : ReceiptFree env r key := by
  intro receipt hreceipt
  unfold idempotencyReplay at h
  rw [bind_eq_ok] at h
  obtain ⟨-, -, h⟩ := h
  rw [hreceipt] at h
  dsimp only at h
  split_ifs at h with hexpired hsame
  · exact hexpired
  · cases h

theorem stored_moves (hm : Moves codec env renews r r₁) (hreceipts : r₁.receipts = r.receipts)
    (hop : key.operation ≠ .workContextComplete) (hfree : ReceiptFree env r key)
    (hstore : storeReceipt codec r₁ key digest outcome env.now = .ok r') :
    Moves codec env renews r r' := by
  refine hm.tail (.store key digest outcome hop ?_ hstore)
  intro receipt hl
  exact hfree receipt (hreceipts ▸ hl)

theorem brokerIs_of_ensure {u : Unit}
    (h : ensureCurrentBroker env r sessionId incarnation = .ok u) :
    BrokerIs r.brokers sessionId incarnation := by
  unfold ensureCurrentBroker at h
  simp only [bind_eq_ok, orErr_eq_ok, ensure_eq_ok] at h
  obtain ⟨broker, hb, -, hinc, -⟩ := h
  exact ⟨broker, hb, hinc⟩

theorem isActiveOf_iff {claim : WorkContextRecord} :
    claim.isActiveOf sessionId incarnation ↔ claim.sessionId = sessionId ∧
      claim.sessionIncarnation = incarnation ∧ claim.state = .active := by
  simp [WorkContextRecord.isActiveOf, and_assoc]

theorem isActiveOf_of_find? {claim : WorkContextRecord}
    (h : claims.find? (fun claim => claim.isActiveOf sessionId incarnation) = some claim) :
    claim.sessionId = sessionId ∧ claim.sessionIncarnation = incarnation ∧ claim.state = .active := by
  have hactive : claim.isActiveOf sessionId incarnation := by simpa using List.find?_some h
  exact isActiveOf_iff.mp hactive

/-! ## Ending a claim -/

theorem releaseClaim_step {claim : WorkContextRecord} (h : claim.state = .active) :
    ClaimStep claim (releaseClaim now claim) := .finish h .released (by simp) _ now now

theorem releaseFirst_moves {p : WorkContextRecord → Bool} {now : Int}
    (hp : ∀ claim, r.claims.find? p = some claim → claim.state = .active ∧
      ¬ hasNonterminalOperation r.operations claim.claimId) :
    Moves codec env renews r { r with claims := updateFirst p (releaseClaim now) r.claims } := by
  refine .single (.claims r _ (Evolves.of_updateFirst (fun claim _ => .stay claim)
    fun claim hf => releaseClaim_step (hp claim hf).1) ?_)
  intro claim hc hactive _ hbound
  rcases mem_updateFirst_or (f := releaseClaim now) hc with hmem | hf
  · exact ⟨claim, hmem, .stay claim, hactive⟩
  · exact absurd hbound (hp claim hf).2

theorem released_alone (hw : Work r) {claim : WorkContextRecord}
    (hc : claim ∈ updateFirst (fun claim => claim.isActiveOf sessionId incarnation)
      (releaseClaim now) r.claims)
    (hsid : claim.sessionId = sessionId) (hinc : claim.sessionIncarnation = incarnation) :
    claim.state ≠ .active := by
  intro hactive
  rcases mem_updateFirst hc with hmem | ⟨x, -, rfl⟩
  · have hsome : (r.claims.find? fun claim => claim.isActiveOf sessionId incarnation).isSome :=
      List.find?_isSome.mpr ⟨claim, hmem, isActiveOf_iff.mpr ⟨hsid, hinc, hactive⟩⟩
    obtain ⟨x, hx⟩ := Option.isSome_iff_exists.mp hsome
    obtain ⟨hxs, -, hxa⟩ := isActiveOf_of_find? hx
    obtain rfl : claim = x :=
      hw.claimAlone claim hmem x (List.mem_of_find?_eq_some hx) hactive hxa (hsid.trans hxs.symm)
    -- the released claim has the same id, and ids are unique
    have hkeys : Evolves (fun x y : WorkContextRecord => y.claimId = x.claimId) r.claims
        (updateFirst (fun claim => claim.isActiveOf sessionId incarnation) (releaseClaim now)
          r.claims) := Evolves.of_updateFirst (fun _ _ => rfl) fun _ _ => rfl
    have hids := hkeys.keys_nodup WorkContextRecord.claimId (fun _ _ h => h) hw.claimIds
    have heq := eq_of_key_eq hids hc (mem_updateFirst_of_find? hx) rfl
    rw [heq] at hactive
    exact absurd hactive (by simp [releaseClaim])
  · exact absurd hactive (by simp [releaseClaim])

theorem none_alone {claim : WorkContextRecord}
    (h : (r.claims.find? fun claim => claim.isActiveOf sessionId incarnation) = none)
    (hc : claim ∈ r.claims) (hsid : claim.sessionId = sessionId)
    (hinc : claim.sessionIncarnation = incarnation) : claim.state ≠ .active := by
  intro hactive
  exact List.find?_eq_none.mp h claim hc (isActiveOf_iff.mpr ⟨hsid, hinc, hactive⟩)

/-! ## Claims -/

theorem newClaim_wellFormed (hv : validateAndCanonicalize input = .ok context)
    (ha : addWorktree context fingerprint = .ok candidate) (now : Int)
    (sessionId incarnation : String) :
    (newClaim env now sessionId incarnation candidate).WellFormed := by
  have hsame : candidate.scopes = context.scopes ∧ candidate.repositories = context.repositories := by
    unfold addWorktree at ha
    split at ha
    · cases ha
      exact ⟨rfl, rfl⟩
    · rw [ensure_bind_ok] at ha
      obtain ⟨-, ha⟩ := ha
      cases ha
      exact ⟨rfl, rfl⟩
  refine ⟨rfl, fun scope hs => ?_⟩
  show scope.repository ∈ candidate.repositories
  rw [hsame.2]
  exact validateAndCanonicalize_scope_repository hv (hsame.1 ▸ hs)

theorem newClaim_declared (hv : validateAndCanonicalize input = .ok context)
    (ha : addWorktree context fingerprint = .ok candidate) (now : Int)
    (hb : BrokerIs r.brokers sessionId incarnation)
    (halone : ∀ claim ∈ r.claims, claim.sessionId = sessionId →
      claim.sessionIncarnation = incarnation → claim.state ≠ .active) :
    Declared env r (newClaim env now sessionId incarnation candidate) where
  fresh := rfl
  active := rfl
  terminal := rfl
  wellFormed := newClaim_wellFormed hv ha now sessionId incarnation
  alone := halone
  broker := hb

theorem replaceClaim_spec (hw : Work r) {ifRevision : Option Nat}
    (h : replaceClaim r sessionId incarnation ifRevision now = .ok r') :
    Moves codec env renews r r' ∧ r'.brokers = r.brokers ∧ r'.receipts = r.receipts ∧
      ∀ claim ∈ r'.claims, claim.sessionId = sessionId → claim.sessionIncarnation = incarnation →
        claim.state ≠ .active := by
  unfold replaceClaim at h
  dsimp only at h
  split at h
  case h_1 existing hfind =>
    simp only [bind_eq_ok, ensure_eq_ok, exists_const] at h
    obtain ⟨hfree, -, h⟩ := h
    cases h
    refine ⟨releaseFirst_moves fun claim hf => ?_, rfl, rfl, fun claim hc => released_alone hw hc⟩
    rw [hfind] at hf
    cases hf
    exact ⟨(isActiveOf_of_find? hfind).2.2, hfree⟩
  case h_2 hfind =>
    simp only [bind_eq_ok, ensure_eq_ok, exists_const] at h
    obtain ⟨-, h⟩ := h
    cases h
    exact ⟨.refl, rfl, rfl, fun claim hc => none_alone hfind hc⟩

theorem ensureFingerprintKey_moves : Moves codec env renews r (ensureFingerprintKey env r) :=
  .single (.fingerprint r _ _)

/-- The registry of a claim request after it was cleaned. -/
theorem cleanedForClaim_moves :
    Moves codec env renews r (cleanExpired env env.now (ensureFingerprintKey env r)) :=
  ensureFingerprintKey_moves.trans cleanExpired_moves

theorem claim_moves (hw : Work r) {args : ClaimArgs}
    (h : claim codec env args r = .ok (r', outcome)) : SectionMoves codec env renews r r' := by
  unfold claim at h
  simp only [bind_eq_ok] at h
  obtain ⟨context, hv, fingerprint, -, candidate, ha, u, hbroker, replay, hreplay, h⟩ := h
  have hclean : Moves codec env renews r
      (cleanExpired env env.now (ensureFingerprintKey env r)) := cleanedForClaim_moves
  cases replay with
  | some outcome' => cases h; exact .refl r
  | none =>
    simp only [bind_eq_ok, ensure_eq_ok, exists_const] at h
    obtain ⟨-, -, r₁, hreplace, -, -, r₂, hstore, h⟩ := h
    cases h
    obtain ⟨hm, hbrokers, hreceipts, halone⟩ := replaceClaim_spec (hw.moves hclean) hreplace
    refine ⟨r₁, _, hclean.trans hm, .inr (.claim r₁ _ (newClaim_declared hv ha _ ?_ halone)),
      .single (.store _ _ _ (by simp) ?_ hstore)⟩
    · exact hbrokers ▸ brokerIs_of_ensure hbroker
    · intro receipt hl
      exact receiptFree_of_replay hreplay receipt (hreceipts ▸ hl)

theorem setDeclared_moves (hw : Work r) {args : SetDeclaredArgs}
    (h : setDeclared codec env args r = .ok (r', outcome)) :
    SectionMoves codec env renews r r' := by
  unfold setDeclared at h
  simp only [bind_eq_ok] at h
  obtain ⟨context, hv, fingerprint, -, candidate, ha, u, hbroker, -, -, h⟩ := h
  have hclean : Moves codec env renews r
      (cleanExpired env env.now (ensureFingerprintKey env r)) := cleanedForClaim_moves
  split at h
  case h_1 existing hfind =>
    split at h
    case isTrue => cases h; exact .refl r
    case isFalse =>
      simp only [bind_eq_ok, ensure_eq_ok, exists_const] at h
      obtain ⟨-, h⟩ := h
      split at h
      case isTrue => cases h; exact .refl r
      case isFalse =>
        simp only [bind_eq_ok, ensure_eq_ok, exists_const] at h
        obtain ⟨hfree, -, h⟩ := h
        cases h
        have hm := @releaseFirst_moves codec env renews
          (cleanExpired env env.now (ensureFingerprintKey env r))
          (fun claim => claim.isActiveOf args.record.id args.incarnation) env.now
          (fun claim hf => by
            rw [hfind] at hf
            cases hf
            exact ⟨(isActiveOf_of_find? hfind).2.2, hfree⟩)
        exact ⟨_, _, hclean.trans hm, .inr (.claim _ _ (newClaim_declared hv ha _
          (brokerIs_of_ensure hbroker) fun claim hc => released_alone (hw.moves hclean) hc)), .refl⟩
  case h_2 hfind =>
    simp only [bind_eq_ok, ensure_eq_ok, exists_const] at h
    obtain ⟨-, -, h⟩ := h
    cases h
    exact ⟨_, _, hclean, .inr (.claim _ _ (newClaim_declared hv ha _
      (brokerIs_of_ensure hbroker) fun claim hc => none_alone hfind hc)), .refl⟩

theorem clearDeclared_moves (h : clearDeclared env sessionId incarnation r = .ok (r', outcome)) :
    Moves codec env renews r r' := by
  unfold clearDeclared at h
  simp only [bind_eq_ok] at h
  obtain ⟨-, -, h⟩ := h
  split at h
  case h_1 => cases h; exact .refl
  case h_2 claim hfind =>
    simp only [bind_eq_ok, ensure_eq_ok, exists_const] at h
    obtain ⟨hfree, h⟩ := h
    cases h
    refine cleanExpired_moves.trans (releaseFirst_moves fun claim hf => ?_)
    rw [hfind] at hf
    cases hf
    exact ⟨(isActiveOf_of_find? hfind).2.2, hfree⟩

theorem ClaimRevisionArgs.names_of_find? {claim : WorkContextRecord}
    (h : claims.find? args.names = some claim) :
    claim.state = .active ∧ claim.claimId = args.claim := by
  have hnames := List.find?_some h
  rw [ClaimRevisionArgs.names, Bool.and_eq_true, isActiveOf_iff, decide_eq_true_eq] at hnames
  exact ⟨hnames.1.2.2, hnames.2⟩

theorem renewFirst_moves :
    Moves codec env renews r
      { r with claims := updateFirst args.names (ownerRenewedClaim now) r.claims } := by
  refine .single (.claims r _ ?_ ?_)
  · exact Evolves.of_updateFirst (fun claim _ => .stay claim) fun claim hf =>
      .renew (ClaimRevisionArgs.names_of_find? hf).1 _ _ _
  · intro claim hc hactive _ _
    rcases mem_updateFirst_or (f := ownerRenewedClaim now) hc with hmem | hf
    · exact ⟨claim, hmem, .stay claim, hactive⟩
    · exact ⟨_, mem_updateFirst_of_find? hf, .renew hactive _ _ _, hactive⟩

theorem renew_moves
    (h : renew codec env args r = .ok (r', outcome)) : Moves codec env renews r r' := by
  unfold renew at h
  simp only [bind_eq_ok] at h
  obtain ⟨replay, hreplay, h⟩ := h
  cases replay with
  | some outcome' => cases h; exact .refl
  | none =>
    simp only [bind_eq_ok, ensure_eq_ok, orErr_eq_ok, exists_const] at h
    obtain ⟨-, -, -, -, claim, hfind, -, r₂, hstore, h⟩ := h
    cases h
    exact (cleanExpired_moves.trans renewFirst_moves).tail
      (.store _ _ _ (by simp) (receiptFree_of_replay hreplay) hstore)

theorem release_moves
    (h : release codec env args r = .ok (r', outcome)) : Moves codec env renews r r' := by
  unfold release at h
  simp only [bind_eq_ok] at h
  obtain ⟨replay, hreplay, h⟩ := h
  cases replay with
  | some outcome' => cases h; exact .refl
  | none =>
    simp only [bind_eq_ok, ensure_eq_ok, orErr_eq_ok, exists_const] at h
    obtain ⟨claim, hfind, hfree, -, r₂, hstore, h⟩ := h
    cases h
    refine (releaseFirst_moves fun claim hf => ?_).tail
      (.store _ _ _ (by simp) (receiptFree_of_replay hreplay) hstore)
    obtain ⟨hactive, hid⟩ := ClaimRevisionArgs.names_of_find? hf
    exact ⟨hactive, hid ▸ hfree⟩

theorem releaseSection_moves :
    Moves codec env renews r (releaseSection codec env args r).1 := by
  unfold releaseSection
  exact commit_induction cleanExpired_moves fun r' outcome h =>
    cleanExpired_moves.trans (release_moves h)

/-! ## Operations -/

theorem admissibleClaim_admitted {args : AdmitArgs} {request : AdmissionRequest}
    {claim : WorkContextRecord} (h : admissibleClaim env args request r = .ok claim)
    (now : Int) (activity : TurnState) (runtime : RuntimeEvidence) :
    Admitted env r claim (newLease env now args request claim activity runtime) := by
  unfold admissibleClaim activeClaim ensureCovered at h
  simp only [bind_eq_ok, ensure_eq_ok, orErr_eq_ok, exists_const] at h
  obtain ⟨halone, claim', hfind, -, -, hcov, hnoconf, h⟩ := h
  cases h
  obtain ⟨hsid, hinc, hactive⟩ := isActiveOf_of_find? hfind
  obtain ⟨htargets, hproviders, -⟩ := hcov
  refine ⟨rfl, rfl, rfl, ?_, ⟨List.mem_of_find?_eq_some hfind, hactive⟩,
    ⟨rfl, hsid.symm, hinc.symm, ?_, ?_⟩, ?_⟩
  · intro other ho hother hn
    have hother : other.sessionId = args.record.id := hother
    exact halone (List.any_eq_true.mpr ⟨other, ho, by simp [hn, hother]⟩)
  · intro target ht
    exact List.any_eq_true.mp (List.all_eq_true.mp htargets target ht)
  · intro target ht
    exact of_decide_eq_true (List.all_eq_true.mp hproviders target ht)
  · rw [hsid, hinc, ← evaluate_conflict_iff]
    exact hnoconf

theorem admit_moves {args : AdmitArgs}
    (h : admitOperation codec env args r = .ok (r', outcome)) : SectionMoves codec env renews r r' := by
  unfold admitOperation at h
  simp only [bind_eq_ok, ensure_eq_ok, exists_const] at h
  obtain ⟨request, -, -, -, -, replay, hreplay, h⟩ := h
  cases replay with
  | some outcome' => cases h; exact .refl r
  | none =>
    simp only [bind_eq_ok, ensure_eq_ok, orErr_eq_ok, exists_const] at h
    obtain ⟨-, -, claim, hclaim, activity, -, -, runtime, -, -, r₂, hstore, h⟩ := h
    cases h
    exact ⟨_, _, cleanExpired_moves, .inr (.lease _ claim _ (admissibleClaim_admitted hclaim _ _ _)),
      .single (.store _ _ _ (by simp [AdmitArgs.receiptKey]) (receiptFree_of_replay hreplay) hstore)⟩

theorem complete_cases {args : CompleteArgs} (h : complete env args r = .ok (r', outcome)) :
    r' = r ∨ ∃ lease, Persisted env r (args.event env.now) lease ∧
      r' = { r with completionEvents := r.completionEvents ++ [args.event env.now] } := by
  unfold complete at h
  simp only [bind_eq_ok] at h
  obtain ⟨-, -, replay, hreplay, h⟩ := h
  cases replay with
  | some outcome' => cases h; exact .inl rfl
  | none =>
    simp only [bind_eq_ok, ensure_eq_ok, orErr_eq_ok, exists_const] at h
    obtain ⟨lease, hfind, ⟨hrev, hn⟩, htoken, h⟩ := h
    split at h
    case h_1 =>
      simp only [bind_eq_ok, ensure_eq_ok, exists_const] at h
      obtain ⟨-, h⟩ := h
      cases h
      exact .inl rfl
    case h_2 hnone =>
      simp only [bind_eq_ok, ensure_eq_ok, exists_const] at h
      obtain ⟨-, h⟩ := h
      cases h
      refine .inr ⟨lease, ⟨hfind, hn, hrev, htoken, ?_, rfl, receiptFree_of_replay hreplay⟩, rfl⟩
      intro pending hp heq
      exact List.find?_eq_none.mp hnone pending hp (decide_eq_true heq)

theorem complete_moves {args : CompleteArgs}
    (h : complete env args r = .ok (r', outcome)) : Moves codec env renews r r' := by
  rcases complete_cases h with rfl | ⟨lease, hp, rfl⟩
  · exact .refl
  · exact .single (.addEvent r _ lease hp)

theorem completeSection_moves {args : CompleteArgs} :
    Moves codec env renews r (completeSection env args r).1 := by
  unfold completeSection
  exact commit_induction cleanExpired_moves fun r' outcome h =>
    cleanExpired_moves.trans (complete_moves h)

theorem completeReplay_eq {args : CompleteArgs}
    (h : completeReplay env args r = .ok (r', outcome)) : r' = r := by
  unfold completeReplay at h
  simp only [bind_eq_ok, orErr_eq_ok] at h
  obtain ⟨_, -, _, -, h⟩ := h
  cases h
  rfl

theorem drainSection_moves (h : drainSection codec env r = .ok (r', outcome)) :
    Moves codec env renews r r' := by
  unfold drainSection at h
  rw [bind_eq_ok] at h
  obtain ⟨⟨r₁, n⟩, hdrain, h⟩ := h
  cases h
  exact cleanExpired_moves.trans (drainEvents_moves (.inr rfl) hdrain)

/-! ## Reconciliation -/

theorem updateNamed_moves (hw : Work r) (hl : lease ∈ r.operations)
    {f : OperationLease → OperationLease} (hf : LeaseStep renews (Undrained r) lease (f lease)) :
    Moves codec env renews r
      { r with
        operations := updateFirst (fun candidate => decide (candidate.leaseId = lease.leaseId)) f
          r.operations } := by
  refine .single (.leases r _ (Evolves.of_updateFirst (fun x _ => .stay x) fun x hx => ?_))
  have hid : x.leaseId = lease.leaseId := by simpa using List.find?_some hx
  rw [eq_of_key_eq hw.leaseIds (List.mem_of_find?_eq_some hx) hl hid]
  exact hf

theorem reconcile_moves (hw : Work r) (hu : ∀ lease ∈ r.operations, Undrained r lease)
    {args : ReconcileArgs} (hfree : ReceiptFree env r args.receiptKey)
    (h : reconcile codec env args r = .ok (r', outcome)) : Moves codec env renews r r' := by
  unfold reconcile at h
  simp only [bind_eq_ok, ensure_eq_ok, orErr_eq_ok, exists_const] at h
  obtain ⟨lease, hfind, -, hn, runtime, -, -, -, h⟩ := h
  have hl : lease ∈ r.operations := List.mem_of_find?_eq_some hfind
  have hop : args.receiptKey.operation ≠ .workContextComplete := by simp [ReconcileArgs.receiptKey]
  split at h
  case isTrue =>
    simp only [bind_eq_ok, orErr_eq_ok] at h
    obtain ⟨target, -, r₂, hstore, h⟩ := h
    cases h
    exact (updateNamed_moves hw hl (.pend hn (hu lease hl) env.now)).tail
      (.store _ _ _ hop hfree hstore)
  case isFalse =>
    simp only [bind_eq_ok, orErr_eq_ok, ensure_eq_ok, exists_const] at h
    obtain ⟨-, target, -, r₂, hstore, h⟩ := h
    cases h
    have hstep : LeaseStep renews (Undrained r) lease (reconcileLease args.outcome env.now lease) :=
      .finish hn args.outcome.state
        (by cases args.outcome <;> simp [CompletionOutcome.state, LeaseState.nonterminal])
        (some (.completion args.outcome)) none env.now
    exact (updateNamed_moves hw hl hstep).tail (.store _ _ _ hop hfree hstore)

theorem receiptFree_of_drain (hop : key.operation ≠ .workContextComplete)
    {ids : List EventId} {n : Nat}
    (h : drainEvents codec now r ids = .ok (r', n)) (hfree : ReceiptFree env r key) :
    ReceiptFree env r' key := by
  induction ids generalizing r n with
  | nil => cases h; exact hfree
  | cons eventId rest ih =>
    obtain ⟨r₁, done, count, h₁, h₂, -⟩ := drainEvents_cons h
    refine ih h₂ ?_
    rcases drainCompletionEvent_cases h₁ with ⟨rfl, -⟩ | ⟨-, event, lease, stored, -, -, -, hs, rfl⟩
    · exact hfree
    · obtain ⟨receipts, evictions, rfl, -, hother⟩ := storeReceipt_spec hs
      intro receipt hreceipt
      have hne : key ≠ event.receiptKey := by
        rintro rfl
        exact hop rfl
      rcases hother key hne with heq | ⟨hnone, -⟩
      · exact hfree receipt (heq ▸ hreceipt)
      · cases hnone.symm.trans hreceipt

theorem reconcileSection_moves (hw : Work r) {args : ReconcileArgs} :
    Moves codec env renews r (reconcileSection codec env args r).1 := by
  unfold reconcileSection
  split
  case h_1 => exact .refl
  case h_2 => exact .refl
  case h_3 hreplay =>
    split
    case h_1 => exact .refl
    case h_2 drained n hdrain =>
      have hm : Moves codec env renews r drained := drainEvents_moves (.inr rfl) hdrain
      refine commit_induction hm fun r' outcome h => hm.trans ?_
      refine reconcile_moves (hw.moves hm) (drainCompletionEvents_undrained (.inr rfl) hw hdrain) ?_ h
      exact receiptFree_of_drain (by simp [ReconcileArgs.receiptKey]) hdrain
        (receiptFree_of_replay hreplay)

theorem operatorAttestedTransition_moves {leaseId : String} {ifRevision : Nat}
    (h : operatorAttestedTransition env r sessionId incarnation leaseId ifRevision now evidence =
      .ok (r', lease)) : Moves codec env renews r r' ∧ r'.receipts = r.receipts := by
  unfold operatorAttestedTransition at h
  simp only [bind_eq_ok, ensure_eq_ok, exists_const] at h
  obtain ⟨snapshot, -, -, -, h⟩ := h
  exact ⟨abandonExactOperation_moves h, abandonExactOperation_receipts h⟩

theorem operatorReconcileSection_moves {args : OperatorReconcileArgs}
    :
    Moves codec env renews r (operatorReconcileSection codec env args evidence r).1 := by
  unfold operatorReconcileSection
  dsimp only
  split
  case h_1 => exact .refl
  case h_2 => exact .refl
  case h_3 hreplay =>
    split
    case h_1 => exact .refl
    case h_2 drained n hdrain =>
      have hm : Moves codec env renews r drained := drainEvents_moves (.inr rfl) hdrain
      split
      case isTrue => exact hm
      case isFalse =>
        refine commit_induction hm fun r' outcome h => hm.trans ?_
        unfold operatorReconcileOperation at h
        simp only [bind_eq_ok] at h
        obtain ⟨⟨r₁, lease⟩, htransition, r₂, hstore, h⟩ := h
        cases h
        obtain ⟨hmoves, hreceipts⟩ := operatorAttestedTransition_moves htransition
        exact stored_moves hmoves hreceipts (by simp)
          (receiptFree_of_drain (by simp) hdrain (receiptFree_of_replay hreplay)) hstore

end NilsCli.Coordination
