import NilsCli.Coordination.WorkSafety

/-!
# A repeated request is answered from its receipt

Every request that stores a receipt has the same shape: guards, the lookup of its key, and the work
behind it.
-/

namespace NilsCli.Coordination

open Lib

variable {p : Except CliError RequestDigest} {args : ReceiveArgs}

variable {codec : Codec} {env : Env} {r : Registry} {k : ReceiptKey} {x : IdempotencyReceipt}

/-! ## The lookup -/

structure Env.Before (env : Env) (time : Int) : Prop where
  lock : env.lockNow < time
  now : env.now < time
  replay : env.replayNow < time

/-- The receipt was stored under its key. -/
structure Filed (k : ReceiptKey) (x : IdempotencyReceipt) : Prop where
  principal : x.principal = k.principal
  incarnation : x.incarnation = k.incarnation
  operation : x.operation = k.operation

def Answers {β : Type} (answered : β) (x : IdempotencyReceipt) (presented : Except CliError RequestDigest)
    (body : Except CliError β) : Prop :=
  match presented with
  | .error _ => ∃ error, body = .error error
  | .ok digest => if digest = x.digest then body = .ok answered else ∃ error, body = .error error

namespace Answers

variable {α β : Type} {answered : β}

theorem bind {m : Except CliError α} {p : α → Except CliError RequestDigest}
    {body : α → Except CliError β} (h : ∀ a, m = .ok a → Answers answered x (p a) (body a)) :
    Answers answered x (m >>= p) (m >>= body) := by
  cases m with
  | error error => exact ⟨error, rfl⟩
  | ok a => exact h a rfl

theorem ensure {c : Prop} [Decidable c] {error : CliError}
    {p : Unit → Except CliError RequestDigest} {body : Unit → Except CliError β}
    (h : Answers answered x (p ()) (body ())) :
    Answers answered x (Lib.ensure c error >>= p) (Lib.ensure c error >>= body) := bind fun _ _ => h

theorem of_ok {digest : RequestDigest} {body : Except CliError β}
    (heq : digest = x.digest → body = .ok answered)
    (hne : digest ≠ x.digest → ∃ error, body = .error error) :
    Answers answered x (.ok digest) body := by
  unfold Answers
  dsimp only
  split
  case isTrue h => exact heq h
  case isFalse h => exact hne h

theorem of_error {error : CliError} {body : Except CliError β}
    (h : ∃ error, body = .error error) : Answers answered x (.error error) body := h

theorem andThen {a : α} {body : Except CliError α}
    {rest : α → Except CliError β} (h : Answers a x p body) (hrest : rest a = .ok answered) :
    Answers answered x p (body >>= rest) := by
  cases p with
  | error =>
    obtain ⟨error, rfl⟩ := h
    exact ⟨error, rfl⟩
  | ok digest =>
    unfold Answers at h
    refine of_ok (fun hd => ?_) fun hd => ?_
    · dsimp only at h
      rw [if_pos hd] at h
      rw [h, ok_bind, hrest]
    · dsimp only at h
      rw [if_neg hd] at h
      obtain ⟨error, rfl⟩ := h
      exact ⟨error, rfl⟩

theorem lookup {digest : RequestDigest} {rest : Option Outcome → Except CliError β}
    (hl : r.receipts.lookup k = some x) (hf : Filed k x) (hlive : env.replayNow < x.expiresAtEpoch)
    (hrest : rest (some x.outcome) = .ok answered) :
    Answers answered x (validateIdempotencyKey k.key >>= fun _ => pure digest)
      (idempotencyReplay env r k digest >>= rest) := by
  unfold idempotencyReplay
  cases validateIdempotencyKey k.key with
  | error error => exact ⟨error, rfl⟩
  | ok =>
    rw [hl, ok_bind, ok_bind]
    dsimp only
    rw [if_neg (not_le.mpr hlive)]
    unfold Answers
    dsimp only [pure, Except.pure]
    by_cases hd : digest = x.digest
    · rw [if_pos hd, if_pos ⟨hf.principal, hf.incarnation, hf.operation, hd.symm⟩]
      exact hrest
    · rw [if_neg hd, if_neg fun h => hd h.2.2.2.symm]
      exact ⟨_, rfl⟩

end Answers

/-! ## Requests with a receipt -/

def ClaimArgs.receiptKey (args : ClaimArgs) : ReceiptKey :=
  ⟨args.record.id, args.incarnation, .workContextClaim, args.idempotencyKey⟩

def ClaimRevisionArgs.receiptKey (args : ClaimRevisionArgs) (operation : Operation) : ReceiptKey :=
  ⟨args.sessionId, args.incarnation, operation, args.idempotencyKey⟩

def OperatorReconcileArgs.receiptKey (args : OperatorReconcileArgs) : ReceiptKey :=
  ⟨args.record.id, args.incarnation, .operatorOperationReconcile, args.idempotencyKey⟩

def ReceiveArgs.receiptKey (codec : Codec) (args : ReceiveArgs) : ReceiptKey :=
  match args.source with
  | some source => source.receiptKey codec
  | none => receiveKey args.envelope.messageId

def ReceiveArgs.digest (args : ReceiveArgs) : RequestDigest :=
  match args.source with
  | some source => source.digest
  | none => .receive args.envelope

def Section.receiptKey (codec : Codec) : Section → Option ReceiptKey
  | .claim args => some args.receiptKey
  | .renew args => some (args.receiptKey .workContextRenew)
  | .release args => some (args.receiptKey .workContextRelease)
  | .admitObserved args | .admitOperation args => some args.receiptKey
  | .complete args | .completeReplay args => some args.receiptKey
  | .reconcile args => some args.receiptKey
  | .operatorReconcile args _ => some args.receiptKey
  | .recoverBegin args | .recoverCommit args => some args.receiptKey
  | .retire args => if args.apply then some args.receiptKey else none
  | .send args => some args.receiptKey
  | .receiveObserved args | .receive args => some (args.receiptKey codec)
  | .ack args _ key => some ⟨args.sessionId, args.incarnation, .messageAck, key⟩
  | _ => none

/-- A digest under a valid key. -/
def withKey (key : ReceiptKey) (digest : RequestDigest) : Except CliError RequestDigest :=
  validateIdempotencyKey key.key >>= fun _ => pure digest

def presented (codec : Codec) (env : Env) : Section → Registry → Except CliError RequestDigest
  | .claim args, r => do
    let candidate ← validateAndCanonicalize args.candidate
    let fingerprint ← worktreeFingerprint env (ensureFingerprintKey env r) args.record.cwd
    let candidate ← addWorktree candidate fingerprint
    ensureCurrentBroker env (cleanExpired env env.now (ensureFingerprintKey env r)) args.record.id
      args.incarnation
    withKey args.receiptKey (.claim candidate args.ifRevision)
  | .renew args, _ =>
    withKey (args.receiptKey .workContextRenew) (.claimRevision args.claim args.ifRevision)
  | .release args, _ =>
    withKey (args.receiptKey .workContextRelease) (.claimRevision args.claim args.ifRevision)
  | .admitObserved args, r => do
    let request ← prepareAdmission args
    ensureCurrentBrokerCapability env r args.record.id args.incarnation
      (digestBytes args.capabilityToken)
    withKey args.receiptKey request.digest
  | .admitOperation args, r => do
    let request ← prepareAdmission args
    ensure (env.physicalTargetsValid args.record.cwd request.targets args.checkouts)
      (.dataErr "uncovered-mutation-scope"
        "operation target could not be proven inside the physical checkout boundary")
    ensureCurrentBrokerCapability env (cleanExpired env env.now r) args.record.id args.incarnation
      (digestBytes args.capabilityToken)
    withKey args.receiptKey request.digest
  | .complete args, _ => do
    validateExecutionToken args.executionToken
    withKey args.receiptKey args.digest
  | .completeReplay args, _ => withKey args.receiptKey args.digest
  | .reconcile args, _ => withKey args.receiptKey args.digest
  | .operatorReconcile args _, _ =>
    withKey args.receiptKey (.operatorReconcile args.record.id args.incarnation args.generation
      args.lease args.ifRevision)
  | .recoverBegin args, _ | .recoverCommit args, _ => withKey args.receiptKey args.digest
  | .retire args, r => do
    validateIdempotencyKey args.idempotencyKey
    ensure (args.selectorMatches && (r.brokers.lookup args.record.id).any args.brokerMatches)
      (retirementRefused args r)
    ensure ((r.brokers.lookup args.record.id).any fun broker =>
        broker.state = .stopped && broker.capabilityDigest.isNone)
      (.dataErr "session-incarnation-conflict"
        "retired broker was replaced before receipt replay")
    pure args.digest
  | .send args, _ => do
    let recipient ← orErr (env.loadSessionRecord args.recipientId) messageNotFound
    let recipientIncarnation ← orErr (incarnation recipient).toOption messageNotFound
    ensure (args.expectedRecipientIncarnation.all fun expected => expected = recipientIncarnation)
      (.dataErr "session-incarnation-conflict" "message target session was replaced")
    ensure (env.capabilityRevalidated args.senderId args.senderIncarnation) unauthorized
    withKey args.receiptKey args.digest
  | .receiveObserved args, _ => do
    ensure (envelopeAdmissible codec args.machine args.envelope env.now) remoteMessageInvalid
    validateBody args.envelope.body
    ensure args.authorized unauthorized
    withKey (args.receiptKey codec) args.digest
  | .receive args, _ => do
    ensure (envelopeAdmissible codec args.machine args.envelope env.now) remoteMessageInvalid
    validateBody args.envelope.body
    ensure (args.envelope.createdAtEpoch ≤ i64Add env.now 60 ∧
      env.now < args.envelope.expiresAtEpoch) remoteMessageInvalid
    let recipient ← orErr (env.loadSessionRecord args.envelope.recipient.sessionId)
      (sessionNotFound args.envelope.recipient.sessionId)
    ensure (¬ (isServiceSender args.envelope.sender.storedId ∧
        recipient.id ≠ args.envelope.recipient.sessionId))
      (.dataErr "message-not-found" "service recipient requires an exact session id")
    ensure args.authorized unauthorized
    withKey (args.receiptKey codec) args.digest
  | .ack args ifRevision key, _ => do
    ensure (env.capabilityRevalidated args.sessionId args.incarnation) unauthorized
    withKey ⟨args.sessionId, args.incarnation, .messageAck, key⟩ (.ack args.message ifRevision)
  | _, _ => .error unauthorized

/-- What maintenance leaves to the section: the lock, and the cleaning that it saves first. -/
def framed (codec : Codec) (env : Env) (sec : Section) (r : Registry) : Registry :=
  match sec with
  | .release _ | .complete _ => cleanExpired env env.now (locked codec env sec r)
  | _ => locked codec env sec r

/-! ## What is answered -/

structure Replays (x : IdempotencyReceipt) (presented : Except CliError RequestDigest)
    (framed : Registry) (result : Registry × Except CliError Outcome) : Prop where
  unchanged : result.1 = framed
  replayed : presented = .ok x.digest → result.2 = .ok x.outcome
  refused : presented ≠ .ok x.digest → ∃ error, result.2 = .error error

theorem Answers.refused {β : Type} {answered : β}
    {body : Except CliError β} (h : Answers answered x p body) (hp : p ≠ .ok x.digest) :
    ∃ error, body = .error error := by
  unfold Answers at h
  split at h
  · exact h
  · rwa [if_neg fun hd => hp (congrArg Except.ok hd)] at h

theorem Answers.replayed {β : Type} {answered : β}
    {body : Except CliError β} (h : Answers answered x p body) (hp : p = .ok x.digest) :
    body = .ok answered := by
  subst hp
  unfold Answers at h
  dsimp only at h
  rwa [if_pos rfl] at h

theorem Answers.cases {β : Type} {answered : β} {body : Except CliError β}
    (h : Answers answered x p body) :
    (p = .ok x.digest ∧ body = .ok answered) ∨ (p ≠ .ok x.digest ∧ ∃ error, body = .error error) :=
  (em (p = .ok x.digest)).imp (fun hp => ⟨hp, h.replayed hp⟩) fun hp => ⟨hp, h.refused hp⟩

theorem Replays.of_replayed (hp : p = .ok x.digest) : Replays x p r (r, .ok x.outcome) :=
  ⟨rfl, fun _ => rfl, fun hno => absurd hp hno⟩

theorem Replays.of_refused {error : CliError} (hp : p ≠ .ok x.digest) :
    Replays x p r (r, .error error) :=
  ⟨rfl, fun hyes => absurd hyes hp, fun _ => ⟨error, rfl⟩⟩

/-- A section that only reports what its body found. -/
theorem Answers.replays_read
    {body : Except CliError (Option Outcome)} (h : Answers (some x.outcome) x p body)
    (r : Registry) : Replays x p r (r, body.map (·.getD .unit)) where
  unchanged := rfl
  replayed hp := by
    rw [h.replayed hp]
    rfl
  refused hp := by
    obtain ⟨error, he⟩ := h.refused hp
    exact ⟨error, by rw [he]; rfl⟩

theorem Answers.replays
    {body : Except CliError (Registry × Outcome)} (h : Answers (r, x.outcome) x p body) :
    Replays x p r (commit r body) where
  unchanged := by
    by_cases hp : p = .ok x.digest
    · rw [h.replayed hp]
      rfl
    · obtain ⟨error, he⟩ := h.refused hp
      rw [he]
      rfl
  replayed hp := by
    rw [h.replayed hp]
    rfl
  refused hp := by
    obtain ⟨error, he⟩ := h.refused hp
    exact ⟨error, by rw [he]; rfl⟩

theorem cleanExpired_lookup (hl : r.receipts.lookup k = some x) (hb : env.now < x.expiresAtEpoch) :
    (cleanExpired env env.now r).receipts.lookup k = some x := by
  have heq : (cleanExpired env env.now r).receipts =
      Table.filter (fun _ receipt => decide (receipt.expiresAtEpoch > env.now)) r.receipts := rfl
  rw [heq, Table.lookup_filter, hl]
  simp [hb]

/-- A retirement that names another broker is not eligible. -/
theorem retireEligible_matches {args : RetireArgs} (h : retireEligible env args r) :
    args.selectorMatches && (r.brokers.lookup args.record.id).any args.brokerMatches := by
  unfold retireEligible at h
  simp only [Bool.and_eq_true] at h
  obtain ⟨broker, hbroker, hp⟩ := (Option.any_eq_true _ _).mp h.1.1.1.2
  simp only [Bool.and_eq_true] at hp
  rw [Bool.and_eq_true, hbroker, Option.any_some]
  exact ⟨h.1.1.1.1, hp.1.1.1⟩

section Bodies

variable (hl : r.receipts.lookup k = some x) (hf : Filed k x) (hb : env.Before x.expiresAtEpoch)

include hl hf hb

theorem claim_answers {args : ClaimArgs} (hk : args.receiptKey = k) :
    Answers (r, x.outcome) x (presented codec env (.claim args) r) (claim codec env args r) := by
  subst hk
  refine .bind fun candidate _ => .bind fun fingerprint _ => .bind fun candidate _ =>
    .bind fun _ _ => ?_
  exact .lookup (cleanExpired_lookup (r := ensureFingerprintKey env r) hl hb.now) hf hb.replay rfl

theorem renew_answers {args : ClaimRevisionArgs} (hk : args.receiptKey .workContextRenew = k) :
    Answers (r, x.outcome) x (presented codec env (.renew args) r) (renew codec env args r) := by
  subst hk
  exact .lookup (cleanExpired_lookup hl hb.now) hf hb.replay rfl

theorem release_answers {args : ClaimRevisionArgs} (hk : args.receiptKey .workContextRelease = k) :
    Answers (r, x.outcome) x (presented codec env (.release args) r) (release codec env args r) := by
  subst hk
  exact .lookup hl hf hb.replay rfl

theorem admitReplay_answers {args : AdmitArgs} (hk : args.receiptKey = k) :
    Answers (some x.outcome) x (presented codec env (.admitObserved args) r)
      (admitReplay env args r) := by
  subst hk
  refine .bind fun request _ => .bind fun _ _ => ?_
  rw [← bind_pure (idempotencyReplay _ _ _ _)]
  exact .lookup hl hf hb.replay rfl

theorem admitOperation_answers {args : AdmitArgs} (hk : args.receiptKey = k) :
    Answers (r, x.outcome) x (presented codec env (.admitOperation args) r)
      (admitOperation codec env args r) := by
  subst hk
  refine .bind fun request _ => .ensure (.bind fun _ _ => ?_)
  exact .lookup (cleanExpired_lookup hl hb.now) hf hb.replay rfl

theorem complete_answers {args : CompleteArgs} (hk : args.receiptKey = k) :
    Answers (r, x.outcome) x (presented codec env (.complete args) r) (complete env args r) := by
  subst hk
  exact .bind fun _ _ => .lookup hl hf hb.replay rfl

theorem completeReplay_answers {args : CompleteArgs} (hk : args.receiptKey = k) :
    Answers (r, x.outcome) x (presented codec env (.completeReplay args) r)
      (completeReplay env args r) := by
  subst hk
  exact .lookup hl hf hb.replay rfl

theorem recoverBegin_answers {args : RecoverArgs} (hk : args.receiptKey = k) :
    Answers (r, x.outcome) x (presented codec env (.recoverBegin args) r)
      (recoverBegin env args r) := by
  subst hk
  exact .lookup hl hf hb.replay rfl

theorem recoverCommit_answers {args : RecoverArgs} (hk : args.receiptKey = k) :
    Answers (r, x.outcome) x (presented codec env (.recoverCommit args) r)
      (recoverCommit codec env args r) := by
  subst hk
  exact .lookup hl hf hb.replay rfl

theorem ack_answers {args : MessageArgs} {ifRevision : Nat} {key : String}
    (hk : ⟨args.sessionId, args.incarnation, .messageAck, key⟩ = k) :
    Answers (r, x.outcome) x (presented codec env (.ack args ifRevision key) r)
      (ack codec env args ifRevision key r) := by
  subst hk
  exact .ensure (.lookup (cleanExpired_lookup hl hb.now) hf hb.replay rfl)

theorem sendPlan_answers {args : SendArgs} (hk : args.receiptKey = k) :
    Answers (.replay x.outcome) x (presented codec env (.send args) r)
      (sendPlan codec env args (cleanExpired env env.now r)) := by
  subst hk
  refine .bind fun recipient _ => .bind fun recipientIncarnation _ => .ensure (.ensure ?_)
  exact .lookup (cleanExpired_lookup hl hb.now) hf hb.replay rfl

/-- The lookup of a section that does more than one save. -/
theorem lookup_answers (digest : RequestDigest) :
    Answers (some x.outcome) x (withKey k digest) (idempotencyReplay env r k digest) := by
  rw [← bind_pure (idempotencyReplay _ _ _ _)]
  exact .lookup hl hf hb.replay rfl

theorem reconcileSection_replays {args : ReconcileArgs} (hk : args.receiptKey = k) :
    Replays x (presented codec env (.reconcile args) r) r (reconcileSection codec env args r) := by
  subst hk
  have h : Answers (some x.outcome) x (presented codec env (.reconcile args) r)
      (idempotencyReplay env r args.receiptKey args.digest) := lookup_answers hl hf hb _
  unfold reconcileSection
  rcases h.cases with ⟨hp, he⟩ | ⟨hp, error, he⟩
  · rw [he]
    exact .of_replayed hp
  · rw [he]
    exact .of_refused hp

theorem operatorReconcileSection_replays {args : OperatorReconcileArgs}
    {evidence : OperatorReconcileEvidence} (hk : args.receiptKey = k) :
    Replays x (presented codec env (.operatorReconcile args evidence) r) r
      (operatorReconcileSection codec env args evidence r) := by
  subst hk
  have h : Answers (some x.outcome) x (presented codec env (.operatorReconcile args evidence) r)
      (idempotencyReplay env r args.receiptKey (.operatorReconcile args.record.id args.incarnation
        args.generation args.lease args.ifRevision)) := lookup_answers hl hf hb _
  unfold OperatorReconcileArgs.receiptKey at h
  unfold operatorReconcileSection
  dsimp only
  rcases h.cases with ⟨hp, he⟩ | ⟨hp, error, he⟩
  · rw [he]
    exact .of_replayed hp
  · rw [he]
    exact .of_refused hp

theorem retire_answers {args : RetireArgs} (hk : args.receiptKey = k) (happly : args.apply) :
    Answers (r, x.outcome) x (presented codec env (.retire args) r) (retire codec env args r) := by
  subst hk
  refine .bind fun _ hvalid => ?_
  have hkey : withKey args.receiptKey args.digest = .ok args.digest := by
    unfold withKey RetireArgs.receiptKey
    rw [hvalid]
    rfl
  have hlookup := lookup_answers hl hf hb args.digest
  rw [hkey] at hlookup
  unfold retireReplay
  by_cases hmatch : args.selectorMatches && (r.brokers.lookup args.record.id).any args.brokerMatches
  · rw [if_pos hmatch, ensure, if_pos hmatch, ok_bind]
    by_cases hretired : (r.brokers.lookup args.record.id).any fun broker =>
        broker.state = .stopped && broker.capabilityDigest.isNone
    · -- the broker is still retired
      rw [ensure, if_pos hretired, ok_bind]
      rw [bind_assoc]
      exact hlookup.andThen rfl
    · rw [ensure, if_neg hretired]
      refine .of_error ?_
      by_cases hd : args.digest = x.digest
      · rw [hlookup.replayed (by rw [hd]), ok_bind]
        exact ⟨_, rfl⟩
      · obtain ⟨error, he⟩ := hlookup.refused (by simpa using hd)
        rw [he]
        exact ⟨error, rfl⟩
  · rw [if_neg hmatch, ensure, if_neg hmatch]
    refine .of_error ?_
    rw [pure_bind]
    dsimp only
    rw [happly, ensure, if_neg fun h => hmatch (retireEligible_matches h)]
    exact ⟨_, rfl⟩

theorem receiveReplay_answers {envelope : Envelope} (hk : receiveKey envelope.messageId = k) :
    Answers (some x.outcome) x (withKey k (.receive envelope)) (receiveReplay env r envelope) := by
  subst hk
  have h := lookup_answers hl hf hb (.receive envelope)
  unfold receiveReplay
  by_cases hp : withKey (receiveKey envelope.messageId) (.receive envelope) = .ok x.digest
  · rw [h.replayed hp, hp]
    exact .of_ok (fun _ => rfl) fun hd => absurd rfl hd
  · obtain ⟨error, he⟩ := h.refused hp
    rw [he]
    cases hw : withKey (receiveKey envelope.messageId) (.receive envelope) with
    | error => exact ⟨_, rfl⟩
    | ok digest => exact .of_ok (fun hd => absurd (by rw [hw, hd]) hp) fun _ => ⟨_, rfl⟩

theorem deliveryReplay_answers (hk : args.receiptKey codec = k) :
    Answers (some x.outcome) x (withKey (args.receiptKey codec) args.digest)
      (deliveryReplay codec env args r) := by
  subst hk
  unfold deliveryReplay localReplay
  unfold ReceiveArgs.receiptKey at hl hf ⊢
  unfold ReceiveArgs.digest
  cases hsource : args.source with
  | none =>
    rw [hsource] at hl hf
    exact receiveReplay_answers hl hf hb rfl
  | some source =>
    rw [hsource] at hl hf
    exact (lookup_answers hl hf hb source.digest).andThen rfl

theorem receiveObserved_answers (hk : args.receiptKey codec = k) :
    Answers (some x.outcome) x (presented codec env (.receiveObserved args) r)
      (receiveObserved codec env args r) :=
  .ensure (.bind fun _ _ => .ensure (deliveryReplay_answers hl hf hb hk))

theorem receivePlan_answers (hk : args.receiptKey codec = k) :
    Answers (.replay x.outcome) x (presented codec env (.receive args) r)
      (receivePlan codec env args r) := by
  refine .ensure (.bind fun _ _ => .ensure (.bind fun recipient _ => .ensure (.ensure ?_)))
  subst hk
  unfold ReceiveArgs.receiptKey at hl hf ⊢
  unfold ReceiveArgs.digest localReplay
  cases hsource : args.source with
  | none =>
    rw [hsource] at hl hf
    exact (receiveReplay_answers hl hf hb rfl).andThen rfl
  | some source =>
    rw [hsource] at hl hf
    exact (lookup_answers hl hf hb source.digest).andThen rfl

theorem send_replays {args : SendArgs} (hk : args.receiptKey = k) :
    Replays x (presented codec env (.send args) r) r (send codec env args r) := by
  have h : Answers _ x (presented codec env (.send args) r) _ := sendPlan_answers hl hf hb hk
  unfold send
  dsimp only
  rcases h.cases with ⟨hp, he⟩ | ⟨hp, error, he⟩
  · rw [he]
    exact .of_replayed hp
  · rw [he]
    exact .of_refused hp

theorem receive_replays (hk : args.receiptKey codec = k) :
    Replays x (presented codec env (.receive args) r) r (receive codec env args r) := by
  have h : Answers _ x (presented codec env (.receive args) r) _ := receivePlan_answers hl hf hb hk
  unfold receive
  dsimp only
  rcases h.cases with ⟨hp, he⟩ | ⟨hp, error, he⟩
  · rw [he]
    exact .of_replayed hp
  · rw [he]
    exact .of_refused hp

end Bodies

theorem exec_replays {sec : Section} (hk : sec.receiptKey codec = some k)
    (hl : (framed codec env sec r).receipts.lookup k = some x) (hf : Filed k x)
    (hb : env.Before x.expiresAtEpoch) :
    Replays x (presented codec env sec (locked codec env sec r)) (framed codec env sec r)
      (exec codec env sec r) := by
  cases sec with
  | claim args => exact (claim_answers hl hf hb (Option.some.inj hk)).replays
  | renew args => exact (renew_answers hl hf hb (Option.some.inj hk)).replays
  | release args => exact (release_answers hl hf hb (Option.some.inj hk)).replays
  | admitObserved args => exact (@admitReplay_answers codec _ _ _ _ hl hf hb _ (Option.some.inj hk)).replays_read _
  | admitOperation args => exact (admitOperation_answers hl hf hb (Option.some.inj hk)).replays
  | complete args => exact (@complete_answers codec _ _ _ _ hl hf hb _ (Option.some.inj hk)).replays
  | completeReplay args => exact (@completeReplay_answers codec _ _ _ _ hl hf hb _ (Option.some.inj hk)).replays
  | reconcile args => exact reconcileSection_replays hl hf hb (Option.some.inj hk)
  | operatorReconcile args evidence =>
    exact operatorReconcileSection_replays hl hf hb (Option.some.inj hk)
  | recoverBegin args => exact (@recoverBegin_answers codec _ _ _ _ hl hf hb _ (Option.some.inj hk)).replays
  | recoverCommit args => exact (recoverCommit_answers hl hf hb (Option.some.inj hk)).replays
  | retire args =>
    unfold Section.receiptKey at hk
    dsimp only at hk
    split at hk
    case isTrue happly => exact (retire_answers hl hf hb (Option.some.inj hk) happly).replays
    case isFalse => cases hk
  | send args => exact send_replays hl hf hb (Option.some.inj hk)
  | receiveObserved args =>
    exact (receiveObserved_answers hl hf hb (Option.some.inj hk)).replays_read _
  | receive args => exact receive_replays hl hf hb (Option.some.inj hk)
  | ack args ifRevision key => exact (ack_answers hl hf hb (Option.some.inj hk)).replays
  | maintain | clean | setDeclared | clearDeclared | drain | provision | revoke
    | forgetRevokedFailedLaunch | markDegraded | recordReply | inbox | showMessage
    | reminder | pending | beginAttempt | markSubmitted | markKnownFailure | markUnknown
    | markUndeliverable | deferAttempt | reconcileAbsent => cases hk

end NilsCli.Coordination
