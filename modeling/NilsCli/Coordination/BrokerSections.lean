import NilsCli.Coordination.WorkSections

/-!
# Broker lifecycle as moves

Provisioning, revocation, recovery and retirement. A broker is replaced only after the work of
every other incarnation of its session was ended, so active claims keep their broker.
-/

namespace NilsCli.Coordination

open Lib

variable {sessionId current : String} {args : ProvisionArgs} {record : SessionRecord}
  {outcome : Outcome}

variable {codec : Codec} {env : Env} {renews : OperationLease → Prop} {r r' : Registry}

/-- A change of one broker that keeps its incarnation. -/
theorem modifyBroker_moves {sessionId : String} {f : BrokerRecord → BrokerRecord}
    (hf : ∀ broker, (f broker).incarnation = broker.incarnation) :
    Moves codec env renews r { r with brokers := Table.modify sessionId f r.brokers } := by
  refine .single (.brokers r _ ?_)
  rintro claim - - ⟨broker, hb, hinc⟩
  by_cases heq : claim.sessionId = sessionId
  · refine ⟨f broker, ?_, (hf broker).trans hinc⟩
    rw [Table.lookup_modify, if_pos heq, hb]
    rfl
  · exact ⟨broker, by rwa [Table.lookup_modify_of_ne _ _ heq], hinc⟩

/-- A broker replaced by one of the same incarnation. -/
theorem insertBroker_moves {sessionId : String} {broker broker' : BrokerRecord}
    (hb : r.brokers.lookup sessionId = some broker)
    (hinc : broker'.incarnation = broker.incarnation) :
    Moves codec env renews r { r with brokers := r.brokers.insert sessionId broker' } := by
  refine .single (.brokers r _ ?_)
  rintro claim - - ⟨old, hold, hc⟩
  by_cases heq : claim.sessionId = sessionId
  · rw [heq] at hold ⊢
    refine ⟨broker', AList.lookup_insert _, ?_⟩
    rw [hinc, Option.some.inj (hb.symm.trans hold), hc]
  · exact ⟨old, by rwa [AList.lookup_insert_ne heq], hc⟩

/-! ## Provisioning -/

theorem setLostSince_moves {lostSince : Option Int} :
    Moves codec env renews r (setLostSince sessionId lostSince r) := modifyBroker_moves fun _ => rfl

theorem replacementGuard_moves {previous : BrokerRecord} :
    Moves codec env renews r (replacementGuard env args previous r).1 := by
  unfold replacementGuard
  dsimp only
  split_ifs <;> first | exact .refl | exact setLostSince_moves

theorem provisionGuard_moves :
    Moves codec env renews r (provisionGuard env args current r).1 := by
  unfold provisionGuard
  split
  · exact replacementGuard_moves
  · split <;> exact .refl

theorem carryUnreadAfterVerifiedResume_mail (machine : String) (r : Registry) (sessionId : String)
    (createdMillis : Option Int) (previous current : String) (now : Int) :
    MailOnly env r (carryUnreadAfterVerifiedResume codec machine r sessionId createdMillis previous
      current now) := by
  have hposts {createdMillis : Int} : Posts env r.messages (r.messages.map fun message =>
      (carriedMessage codec machine sessionId previous current createdMillis now message).getD
        message) := carriedMessages_posts
  unfold carryUnreadAfterVerifiedResume
  split
  · exact .refl r
  · split
    · exact .refl r
    · dsimp only
      split
      · exact MailOnly.trans ⟨_, _, _, hposts, rfl⟩ (schedule_mail _ _ _ _)
      · exact ⟨_, _, _, hposts, rfl⟩

theorem endWork_incarnation {now : Int} {claim : WorkContextRecord}
    (hc : claim ∈ (endWork sessionId (· ≠ current) now r).claims) (hsid : claim.sessionId = sessionId)
    (hactive : claim.state = .active) : claim.sessionIncarnation = current := by
  obtain ⟨x, -, rfl⟩ := List.mem_map.mp hc
  unfold endClaim at *
  split at hactive
  case isTrue => exact absurd hactive (by simp [releaseClaim])
  case isFalse h =>
    rw [if_neg h] at hsid ⊢
    by_contra hne
    exact h ⟨hsid, by simpa using hne, hactive⟩

theorem incarnation_ne (h : incarnation record = .ok current) : current ≠ "" := by
  rw [incarnation, orErr_eq_ok, Option.filter_eq_some_iff] at h
  exact of_decide_eq_true h.2

theorem replaceBroker_moves {previous : Option BrokerRecord} (hcurrent : current ≠ "") :
    Moves codec env renews r (replaceBroker codec env args current previous r) := by
  let r₁ := endWork args.record.id (· ≠ current) env.now
    (cleanExpired env env.now (ensureFingerprintKey env r))
  have h₁ : Moves codec env renews r r₁ :=
    cleanedForClaim_moves.tail (.endWork _ args.record.id (· ≠ current) env.now)
  -- the carry concerns the mailbox only
  obtain ⟨r₂, hr₂, hmail, hawake⟩ : ∃ r₂, replaceBroker codec env args current previous r =
      { r₂ with brokers := r₂.brokers.insert args.record.id (newBroker env args current) } ∧
      MailOnly env r₁ r₂ ∧ KeepsAwake env r₁ r₂ := by
    refine ⟨_, rfl, ?_⟩
    cases previous with
    | none => exact ⟨.refl r₁, fun _ _ => id⟩
    | some previous =>
      exact ⟨carryUnreadAfterVerifiedResume_mail _ _ _ _ _ _ _, fun _ _ ha =>
        carryUnreadAfterVerifiedResume_awake ha args.record.id_ne hcurrent⟩
  rw [hr₂]
  refine (h₁.trans (hmail.moves hawake)).tail (.brokers r₂ _ ?_)
  obtain ⟨messages, rejections, notifications, -, rfl⟩ := hmail
  rintro claim hc hactive ⟨broker, hb, hinc⟩
  by_cases heq : claim.sessionId = args.record.id
  · rw [heq]
    refine ⟨_, AList.lookup_insert _, ?_⟩
    exact (endWork_incarnation hc heq hactive).symm
  · exact ⟨broker, by rwa [AList.lookup_insert_ne heq], hinc⟩

theorem provision_moves :
    Moves codec env renews r (provision codec env args r).1 := by
  unfold provision
  split
  case h_1 => exact .refl
  case h_2 current hcurrent =>
    have hguard : Moves codec env renews r (provisionGuard env args current r).1 :=
      provisionGuard_moves
    dsimp only
    split
    case h_1 guarded error heq =>
      rw [heq] at hguard
      exact hguard
    case h_2 guarded heq =>
      rw [heq] at hguard
      split
      · exact hguard.trans (replaceBroker_moves (incarnation_ne hcurrent))
      · exact hguard

/-! ## Revocation, recovery and retirement -/

theorem removeAdvisory_moves {sessionId incarnation : String} :
    Move codec env renews r (removeAdvisoryStateForIncarnation sessionId incarnation r) := by
  have hcursors : Table.filter (fun _ _ => true) r.cursors = r.cursors :=
    AList.ext (List.filter_eq_self.mpr fun _ _ => rfl)
  have hdrop : Move codec env renews r _ := .dropCursors r (fun _ _ => true)
    (removeAdvisoryStateForIncarnation sessionId incarnation r).advisoryAcknowledgements
    (removeAdvisoryStateForIncarnation sessionId incarnation r).advisoryObservations
  rw [hcursors] at hdrop
  exact hdrop

theorem revoke_moves :
    Moves codec env renews r (revoke env record r) := by
  unfold revoke
  split
  case h_1 => exact .refl
  case h_2 current _ =>
    refine ((modifyBroker_moves fun broker => ?_).tail
      (.endWork _ record.id (· = current) env.now)).tail removeAdvisory_moves
    split <;> rfl

theorem forgetRevokedFailedLaunch_moves
    (h : forgetRevokedFailedLaunch record r = .ok (r', outcome)) :
    Moves codec env renews r r' := by
  unfold forgetRevokedFailedLaunch at h
  simp only [bind_eq_ok] at h
  obtain ⟨current, -, h⟩ := h
  cases h
  split
  case isFalse => exact .refl
  case isTrue hremovable =>
    rw [Bool.and_eq_true, Bool.not_eq_true'] at hremovable
    obtain ⟨hbroker, hfree⟩ := hremovable
    refine .single (.brokers r _ ?_)
    rintro claim hc hactive ⟨broker, hb, hinc⟩
    by_cases heq : claim.sessionId = record.id
    · -- an active claim of the broker's incarnation is work that it holds
      rw [← heq, hb] at hbroker
      simp only [Option.any_some, Bool.and_eq_true, decide_eq_true_eq] at hbroker
      have hholds : holdsWork r record.id current := by
        unfold holdsWork
        rw [Bool.or_eq_true]
        refine .inl (List.any_eq_true.mpr ⟨claim, hc, ?_⟩)
        simp [heq, hactive, ← hinc, hbroker.1.1]
      rw [hholds] at hfree
      cases hfree
    · exact ⟨broker, by rwa [AList.lookup_erase_ne heq], hinc⟩

theorem markDegraded_moves {incarnation : String} {generation : Nat} :
    Moves codec env renews r (markDegraded env sessionId incarnation generation r) := by
  refine modifyBroker_moves fun broker => ?_
  split <;> rfl

theorem recoverBegin_moves {args : RecoverArgs}
    (h : recoverBegin env args r = .ok (r', outcome)) : Moves codec env renews r r' := by
  unfold recoverBegin at h
  simp only [bind_eq_ok] at h
  obtain ⟨replay, -, h⟩ := h
  cases replay with
  | some outcome' => cases h; exact .refl
  | none =>
    simp only [bind_eq_ok, ensure_eq_ok, orErr_eq_ok, exists_const] at h
    obtain ⟨runtime, -, -, broker, hb, -, -, h⟩ := h
    obtain ⟨hb, -⟩ := Option.filter_eq_some_iff.mp hb
    split at h
    · cases h
      exact .refl
    · cases h
      exact insertBroker_moves hb rfl

theorem operatorReconcile_moves {leaseId : String} {ifRevision : Nat}
    {now : Int} {lease : OperationLease}
    (h : operatorReconcile env r record leaseId ifRevision now = .ok (r', lease)) :
    Moves codec env renews r r' ∧ r'.receipts = r.receipts := by
  unfold operatorReconcile at h
  simp only [bind_eq_ok, ensure_eq_ok, exists_const] at h
  obtain ⟨current, -, snapshot, -, -, h⟩ := h
  exact ⟨abandonExactOperation_moves h, abandonExactOperation_receipts h⟩

theorem recoverCommit_moves {args : RecoverArgs}
    (h : recoverCommit codec env args r = .ok (r', outcome)) : Moves codec env renews r r' := by
  unfold recoverCommit at h
  simp only [bind_eq_ok] at h
  obtain ⟨replay, hreplay, h⟩ := h
  cases replay with
  | some outcome' => cases h; exact .refl
  | none =>
    simp only [bind_eq_ok, orErr_eq_ok] at h
    obtain ⟨runtime, -, broker, hb, h⟩ := h
    obtain ⟨hb, -⟩ := Option.filter_eq_some_iff.mp hb
    have hop : args.receiptKey.operation ≠ .workContextComplete := by
      unfold RecoverArgs.receiptKey RecoverArgs.operation
      split <;> simp
    have hready := @insertBroker_moves codec env renews r args.record.id broker
      { broker with state := .ready, heartbeatEpoch := env.now, lostSinceEpoch := none } hb rfl
    split at h
    · rw [bind_eq_ok] at h
      obtain ⟨_, h₁, h⟩ := h
      cases h₁
      rw [bind_eq_ok] at h
      obtain ⟨r₂, hstore, h⟩ := h
      cases h
      exact stored_moves hready rfl hop (receiptFree_of_replay hreplay) hstore
    · rw [bind_eq_ok] at h
      obtain ⟨⟨r₁, lease⟩, hreconcile, h⟩ := h
      rw [bind_eq_ok] at h
      obtain ⟨_, h₁, h⟩ := h
      cases h₁
      rw [bind_eq_ok] at h
      obtain ⟨r₂, hstore, h⟩ := h
      cases h
      obtain ⟨hm, hreceipts⟩ := operatorReconcile_moves hreconcile
      exact stored_moves (hready.trans hm) hreceipts hop (receiptFree_of_replay hreplay) hstore

theorem retireReplay_none {args : RetireArgs} (hs : args.selectorMatches)
    (hb : (r.brokers.lookup args.record.id).any args.brokerMatches)
    (h : retireReplay env args r = .ok none) : ReceiptFree env r args.receiptKey := by
  unfold retireReplay at h
  rw [if_pos (by simp [hs, hb]), bind_eq_ok] at h
  obtain ⟨replay, hreplay, h⟩ := h
  cases replay with
  | none => exact receiptFree_of_replay hreplay
  | some outcome =>
    simp only [bind_eq_ok, ensure_eq_ok] at h
    obtain ⟨-, -, h⟩ := h
    cases h

theorem retire_moves {args : RetireArgs}
    (h : retire codec env args r = .ok (r', outcome)) : Moves codec env renews r r' := by
  unfold retire at h
  simp only [bind_eq_ok] at h
  obtain ⟨-, -, replay, hreplay, h⟩ := h
  cases replay with
  | some outcome' => cases h; exact .refl
  | none =>
    dsimp only at h
    split at h
    · cases h
      exact .refl
    simp only [bind_eq_ok, ensure_eq_ok, exists_const] at h
    obtain ⟨heligible, -, r₁, hstore, h⟩ := h
    cases h
    unfold retireEligible at heligible
    simp only [Bool.and_eq_true] at heligible
    obtain ⟨⟨⟨⟨hselector, hbroker⟩, -⟩, hquiet⟩, -⟩ := heligible
    have hmatches : (r.brokers.lookup args.record.id).any args.brokerMatches := by
      cases hb : r.brokers.lookup args.record.id with
      | none => simp [hb] at hbroker
      | some broker =>
        rw [hb, Option.any_some] at hbroker
        simp only [Bool.and_eq_true] at hbroker
        exact hbroker.1.1.1
    have hop : Operation.brokerRetireStopped ≠ .workContextComplete := by simp
    have hstored : Moves codec env renews r r₁ :=
      stored_moves .refl rfl hop (retireReplay_none hselector hmatches hreplay) hstore
    obtain ⟨receipts, evictions, rfl, -⟩ := storeReceipt_spec hstore
    let r₁ := { r with receipts := receipts, receiptEvictions := evictions }
    have hstop := @modifyBroker_moves codec env renews r₁ args.record.id (stopBroker env.now)
      fun _ => rfl
    exact ((hstored.trans hstop).tail
      (.retireClaims _ args.record.id args.incarnation env.now hquiet)).tail removeAdvisory_moves

end NilsCli.Coordination
