import NilsCli.Coordination.BrokerSections

/-!
# Every section is a sequence of moves

The mailbox bodies change the mailbox and store receipts; with the bodies about work this gives
`exec_moves`, which every invariant of claims, leases and receipts is derived from.
-/

namespace NilsCli.Coordination

open Lib

variable {now : Int} {percent : Nat} {outcome : Outcome} {args : ReceiveArgs}
  {recipient : SessionRecord} {candidate : NotificationCandidate}

variable {codec : Codec} {env : Env} {renews : OperationLease → Prop} {r r' : Registry}

/-! ## The mailbox -/

theorem rearmQuota_mail (r : Registry) (recipient : String) (percent : Nat) (now : Int) :
    MailOnly env r (rearmQuota r recipient percent now) := by
  unfold rearmQuota
  split
  · exact .refl r
  · exact notifications_mail r _

theorem admitMessage_mail (r : Registry) (sender : SenderId) (recipient : String) (bytes : Nat)
    (keep : Option String) (now nowMillis : Int) :
    MailOnly env r (admitMessage r sender recipient bytes keep now nowMillis).1 := by
  unfold admitMessage
  dsimp only
  split_ifs <;> first | exact .refl r | exact ⟨_, _, _, evictTerminalMessages_posts, rfl⟩

theorem quotaRejected_mail (r : Registry) (sender : Origin) (recipient : Address)
    (category : Option MessageCategory) (now : Int) :
    MailOnly env r (quotaRejected codec r sender recipient category now) := by
  unfold quotaRejected
  have hevents : ∀ events, MailOnly env r { r with quotaRejections := events } :=
    fun events => ⟨_, events, _, .refl, rfl⟩
  exact (hevents _).trans (signalQuota_mail _ _ _ _)

theorem quotaAdmitted_mail (r : Registry) (sessionId incarnation : String) (percent : Nat)
    (now : Int) : MailOnly env r (quotaAdmitted codec r sessionId incarnation percent now).1 := by
  unfold quotaAdmitted
  dsimp only
  split
  · exact .refl r
  · split
    · exact .refl r
    · exact ((signalQuota_mail r sessionId incarnation now).trans (notifications_mail _ _)).trans
        (normalizeRegistry_mail now _)

theorem quotaAdmitted_messages (r : Registry) (sessionId incarnation : String) (percent : Nat)
    (now : Int) : (quotaAdmitted codec r sessionId incarnation percent now).1.messages =
      r.messages := by
  unfold quotaAdmitted
  dsimp only
  split
  · rfl
  · split <;> rfl

theorem policyAdmit_mail {message message' : StoredMessage} {projection : NotificationProjection}
    (h : policyAdmit codec env r message now = .ok (r', message', projection)) : MailOnly env r r' := by
  unfold policyAdmit at h
  rw [bind_eq_ok] at h
  obtain ⟨⟨suppressed, interval, percent⟩, -, h⟩ := h
  dsimp only at h
  split at h
  · cases h
    exact .refl r
  · cases h
    exact (schedule_mail r _ _ _).trans (notifications_mail _ _)

theorem recordReply_mail (r : Registry) (parent : Option String) :
    MailOnly env r (recordReply r parent env.now) := by
  have hposts := @recordReply_posts env r parent
  unfold recordReply at hposts ⊢
  split
  · exact .refl r
  · exact ⟨_, _, _, hposts, rfl⟩

theorem SendKind.operation_ne (kind : SendKind) : kind.operation ≠ .workContextComplete := by
  cases kind <;> simp [SendKind.operation]

theorem storeMessage_awake {message message' : StoredMessage} {percent : Nat}
    {projection : NotificationProjection}
    (hpolicy : policyAdmit codec env r message env.now = .ok (r', message', projection))
    (hsession : message.recipientSessionId ≠ "") (hincarnation : message.recipientIncarnation ≠ "")
    (parent : Option String) :
    KeepsAwake env r (quotaAdmitted codec
      { recordReply r' parent env.now with
        messages := (recordReply r' parent env.now).messages ++ [message'] }
      message.recipientSessionId message.recipientIncarnation percent env.now).1 := by
  intro t _ ha
  obtain ⟨h₁, hw⟩ := policyAdmit_spec hpolicy ha hsession hincarnation
  have hw' : message'.notificationSuppressed = true ∨
      Woken (recordReply r' parent env.now).notifications message'.wakeKey := by
    rw [recordReply_notifications]
    exact hw
  exact quotaAdmitted_awake (appendMessage_awake (recordReply_awake h₁) hw') hsession hincarnation

theorem storeMessage_add {message message' : StoredMessage} {percent : Nat}
    {projection : NotificationProjection} (hnew : NewMessage env r.messages message)
    (hpolicy : policyAdmit codec env r message env.now = .ok (r', message', projection))
    (hsession : message.recipientSessionId ≠ "") (hincarnation : message.recipientIncarnation ≠ "")
    (parent : Option String) :
    ∃ r₂, r₂ = (quotaAdmitted codec
        { recordReply r' parent env.now with
          messages := (recordReply r' parent env.now).messages ++ [message'] }
        message.recipientSessionId message.recipientIncarnation percent env.now).1 ∧
      Add env r r₂ ∧ r₂.receipts = r.receipts := by
  refine ⟨_, rfl, ?_⟩
  have hawake := @storeMessage_awake codec env r r' message message' percent projection hpolicy
    hsession hincarnation parent
  have hstored : NewMessage env (recordReply r' parent env.now).messages message' :=
    (hnew.admitted hpolicy).recordReply
  obtain ⟨m, q, n, hp, heq⟩ := (policyAdmit_mail hpolicy).trans (recordReply_mail r' parent)
  obtain ⟨m', q', n', -, heq'⟩ := @quotaAdmitted_mail codec env
    { recordReply r' parent env.now with
      messages := (recordReply r' parent env.now).messages ++ [message'] }
    message.recipientSessionId message.recipientIncarnation percent env.now
  have hm' := @quotaAdmitted_messages codec
    { recordReply r' parent env.now with
      messages := (recordReply r' parent env.now).messages ++ [message'] }
    message.recipientSessionId message.recipientIncarnation percent env.now
  rw [heq'] at hm' hawake ⊢
  rw [heq] at hm' hawake hstored ⊢
  obtain rfl : m' = m ++ [message'] := hm'
  exact ⟨.message r m message' q' n' hawake hp hstored, rfl⟩

theorem deliver_moves {message : StoredMessage} {key : ReceiptKey}
    {digest : RequestDigest} (hnew : NewMessage env r.messages message)
    (hsession : message.recipientSessionId ≠ "") (hincarnation : message.recipientIncarnation ≠ "")
    (hop : key.operation ≠ .workContextComplete) (hfree : ReceiptFree env r key)
    (h : deliver codec env r message percent key digest = .ok (r', outcome)) :
    SectionMoves codec env renews r r' := by
  unfold deliver at h
  simp only [bind_eq_ok] at h
  obtain ⟨⟨r₁, message', projection⟩, hpolicy, r₂, hstore, h⟩ := h
  cases h
  obtain ⟨r₃, heq, hadd, hreceipts⟩ := @storeMessage_add codec env r r₁ message message' percent
    projection hnew hpolicy hsession hincarnation message'.replyTo
  obtain ⟨hs, hi⟩ := policyAdmit_recipient hpolicy
  rw [← hs, ← hi] at heq
  refine ⟨r, r₃, .refl, .inr hadd, .single (.store key digest _ hop ?_ (heq ▸ hstore))⟩
  exact fun receipt hl => hfree receipt (hreceipts ▸ hl)

/-- A plan to admit a message passed the replay lookup. -/
theorem sendPlan_admission {args : SendArgs}
    {recipientIncarnation : String} {forwarding : Option Provenance} {expiry : Int}
    {category : Option MessageCategory} (h : sendPlan codec env args r =
      .ok (.admission recipient recipientIncarnation forwarding expiry category percent)) :
    ReceiptFree env r args.receiptKey ∧ recipientIncarnation ≠ "" := by
  unfold sendPlan at h
  simp only [bind_eq_ok] at h
  obtain ⟨record, -, current, hcurrent, _, -, _, -, replay, hreplay, h⟩ := h
  cases replay with
  | some outcome => cases h
  | none =>
    refine ⟨receiptFree_of_replay hreplay, ?_⟩
    rw [orErr_eq_ok] at hcurrent
    have hne : current ≠ "" := by
      cases hi : incarnation record with
      | error => rw [hi] at hcurrent; cases hcurrent
      | ok => rw [hi] at hcurrent; cases hcurrent; exact incarnation_ne hi
    rw [bind_eq_ok] at h
    obtain ⟨-, -, h⟩ := h
    split at h
    · simp only [bind_eq_ok] at h
      obtain ⟨_, -, _, -, h⟩ := h
      cases h
      exact hne
    · simp only [bind_eq_ok] at h
      obtain ⟨_, -, _, -, _, -, h⟩ := h
      cases h
      exact hne

theorem send_moves {args : SendArgs} :
    SectionMoves codec env renews r (send codec env args r).1 := by
  unfold send
  dsimp only
  split
  case h_1 => exact .refl r
  case h_2 => exact .refl r
  case h_3 recipient recipientIncarnation forwarding expiry category percent hplan =>
    obtain ⟨hfree, hincarnation⟩ := sendPlan_admission hplan
    generalize hrearm : rearmQuota (cleanExpired env env.now r) recipient.id percent env.now = r₁
    have h₁ : MailOnly env (cleanExpired env env.now r) r₁ := hrearm ▸ rearmQuota_mail _ _ _ _
    have ha₁ : KeepsAwake env (cleanExpired env env.now r) r₁ := fun _ _ ha =>
      hrearm ▸ rearmQuota_awake ha
    have h₂ := @admitMessage_mail env r₁ (.session args.senderId) recipient.id
      args.body.utf8ByteSize args.replyTo env.now env.nowMillis
    have ha₂ : KeepsAwake env (cleanExpired env env.now r) _ := fun t hle ha =>
      @admitMessage_awake r₁ env.now t (ha₁ t hle ha) (.session args.senderId) recipient.id
        args.body.utf8ByteSize args.replyTo env.nowMillis
    split
    case h_1 r₂ error hadm =>
      rw [hadm] at h₂ ha₂
      split
      · have hmail := (h₁.trans h₂).trans (@quotaRejected_mail codec env r₂
          (.session ⟨env.machine, args.senderId, args.senderIncarnation⟩)
          ⟨env.machine, recipient.id, recipientIncarnation⟩ category env.now)
        exact .of_moves (cleanExpired_moves.trans (hmail.moves fun t hle ha =>
          quotaRejected_awake (ha₂ t hle ha) recipient.id_ne hincarnation))
      · exact .refl r
    case h_2 r₂ hadm =>
      rw [hadm] at h₂ ha₂
      refine commit_induction (.refl r) fun r' outcome h => ?_
      rw [bind_eq_ok] at h
      obtain ⟨depth, -, hdeliver⟩ := h
      have h₁₂ := h₁.trans h₂
      refine .after (cleanExpired_moves.trans (h₁₂.moves ha₂)) (deliver_moves
        ⟨.inl rfl, rfl, rfl, rfl, rfl, admitMessage_admissible hadm⟩ recipient.id_ne
        hincarnation (SendKind.operation_ne args.kind) ?_ hdeliver)
      intro receipt hl
      exact hfree receipt (h₁₂.receipts_eq ▸ hl)

/-! ## Federated messages -/

theorem receivePlan_admission
    (h : receivePlan codec env args r = .ok (.admission recipient percent)) :
    ReceiptFree env r (receiveKey args.envelope.messageId) ∧
      (∀ source, args.source = some source → ReceiptFree env r (source.receiptKey codec)) ∧
      args.envelope.recipient.sessionIncarnation ≠ "" ∧
      ∀ other ∈ r.messages, other.messageId ≠ args.envelope.messageId := by
  unfold receivePlan at h
  simp only [bind_eq_ok] at h
  obtain ⟨_, -, _, -, _, -, _, -, _, -, _, -, prior, hlocal, h⟩ := h
  cases prior with
  | some outcome => cases h
  | none =>
    simp only [bind_eq_ok] at h
    obtain ⟨_, -, replay, hreplay, h⟩ := h
    cases replay with
    | some outcome => cases h
    | none =>
      refine ⟨?_, ?_, ?_, ?_⟩
      · unfold receiveReplay at hreplay
        split at hreplay
        case h_1 replay hidem =>
          cases hreplay
          exact receiptFree_of_replay hidem
        case h_2 => cases hreplay
      · intro source hsource
        rw [hsource] at hlocal
        exact receiptFree_of_replay hlocal
      · simp only [bind_eq_ok, ensure_eq_ok, exists_const] at h
        obtain ⟨current, hcurrent, hsame, -⟩ := h
        exact hsame ▸ incarnation_ne hcurrent
      · simp only [bind_eq_ok, ensure_eq_ok, exists_const] at h
        obtain ⟨-, -, -, hno, -⟩ := h
        simpa using hno

theorem acceptEnvelope_moves
    (hnew : NewMessage env r.messages (receivedMessage env args.envelope recipient))
    (hincarnation : args.envelope.recipient.sessionIncarnation ≠ "")
    (hfree : ReceiptFree env r (receiveKey args.envelope.messageId))
    (hsource : ∀ source, args.source = some source → ReceiptFree env r (source.receiptKey codec))
    (h : acceptEnvelope codec env args recipient percent r = .ok (r', outcome)) :
    SectionMoves codec env renews r r' := by
  unfold acceptEnvelope at h
  simp only [bind_eq_ok] at h
  obtain ⟨⟨r₁, message, projection⟩, hpolicy, r₂, hstore, h⟩ := h
  obtain ⟨r₄, heq, hadd, hreceipts⟩ := @storeMessage_add codec env r r₁ _ message percent projection
    hnew hpolicy recipient.id_ne hincarnation none
  have hstore : storeReceipt codec r₄ (receiveKey args.envelope.messageId) (.receive args.envelope)
      _ env.now = .ok r₂ := heq ▸ hstore
  have haccept : Moves codec env renews r₄ (extendReceipt args.envelope r₂) :=
    .single (.accept args.envelope _ (fun receipt hl => hfree receipt (hreceipts ▸ hl)) hstore)
  split at h
  case h_1 => cases h; exact ⟨r, r₄, .refl, .inr hadd, haccept⟩
  case h_2 source hsome =>
    rw [bind_eq_ok] at h
    obtain ⟨r₃, hstore', h⟩ := h
    cases h
    refine ⟨r, r₄, .refl, .inr hadd, haccept.tail
      (.store _ _ _ (by simp [LocalSubmission.receiptKey]) ?_ hstore')⟩
    -- the receipt of the envelope has another operation
    obtain ⟨receipts, evictions, rfl, -, hother⟩ := storeReceipt_spec hstore
    have hne : source.receiptKey codec ≠ receiveKey args.envelope.messageId := by
      simp [LocalSubmission.receiptKey, receiveKey]
    intro receipt hl
    have hl : receipts.lookup (source.receiptKey codec) = some receipt := by
      rwa [extendReceipt, Table.lookup_modify_of_ne _ _ hne] at hl
    rcases hother _ hne with hsame | ⟨hnone, -⟩
    · exact hsource source hsome receipt (hreceipts ▸ hsame ▸ hl)
    · cases hnone.symm.trans hl

theorem receive_moves :
    SectionMoves codec env renews r (receive codec env args r).1 := by
  unfold receive
  dsimp only
  split
  case h_1 => exact .refl r
  case h_2 => exact .refl r
  case h_3 recipient percent hplan =>
    obtain ⟨hfree, hsource, hincarnation, hids⟩ := receivePlan_admission hplan
    have hsame : (rearmQuota r recipient.id percent env.now).messages = r.messages := by
      unfold rearmQuota
      split <;> rfl
    generalize hrearm : rearmQuota r recipient.id percent env.now = r₁
    have h₁ : MailOnly env r r₁ := hrearm ▸ rearmQuota_mail _ _ _ _
    have ha₁ : KeepsAwake env r r₁ := fun _ _ ha => hrearm ▸ rearmQuota_awake ha
    have ha₂ : KeepsAwake env r (admitMessage r₁ args.envelope.sender.storedId recipient.id
        args.envelope.body.utf8ByteSize args.envelope.replyTo env.now env.nowMillis).1 :=
      fun t hle ha => admitMessage_awake (ha₁ t hle ha)
    have hadmitted := @admitMessage_mail env r₁ args.envelope.sender.storedId recipient.id
      args.envelope.body.utf8ByteSize args.envelope.replyTo env.now env.nowMillis
    split
    case h_1 r₂ error hadm =>
      rw [hadm] at hadmitted ha₂
      split
      · have hmail := (h₁.trans hadmitted).trans (@quotaRejected_mail codec env r₂ args.envelope.sender
          { args.envelope.recipient with sessionId := recipient.id } args.envelope.category env.now)
        exact .of_moves (hmail.moves fun t hle ha =>
          quotaRejected_awake (ha₂ t hle ha) recipient.id_ne hincarnation)
      · exact .refl r
    case h_2 r₂ hadm =>
      rw [hadm] at hadmitted ha₂
      have h₁₂ := h₁.trans hadmitted
      refine commit_induction (.refl r) fun r' outcome h => .after (h₁₂.moves ha₂) ?_
      have hsub : r₂.messages ⊆ r.messages := by
        have hsubset := @admitMessage_subset r₁ env.now args.envelope.sender.storedId recipient.id
          args.envelope.body.utf8ByteSize args.envelope.replyTo env.nowMillis
        rwa [hadm, ← hrearm, hsame] at hsubset
      refine acceptEnvelope_moves
        ⟨.inr fun other hother => hids other (hsub hother), rfl, rfl, rfl, rfl,
          admitMessage_admissible hadm⟩ hincarnation ?_ (fun source hs => ?_) h
      · exact fun receipt hl => hfree receipt (h₁₂.receipts_eq ▸ hl)
      · exact fun receipt hl => hsource source hs receipt (h₁₂.receipts_eq ▸ hl)

/-! ## Reading and reminding -/

theorem inbox_moves {args : InboxArgs}
    (h : inbox env args r = .ok (r', outcome)) : Moves codec env renews r r' := by
  unfold inbox at h
  simp only [bind_eq_ok] at h
  obtain ⟨_, -, _, -, _, -, start, -, h⟩ := h
  split at h
  · cases h
    exact cleanExpired_moves
  · split at h
    · rw [bind_eq_ok] at h
      obtain ⟨⟨kept, key⟩, hkeep, h⟩ := h
      cases h
      obtain ⟨cursors, rfl⟩ := keepCursor_eq hkeep
      exact cleanExpired_moves.tail (.keepCursor _ _ _ _ _ hkeep)
    · cases h
      exact cleanExpired_moves

theorem showMessage_moves {args : MessageArgs}
    (h : showMessage env args r = .ok (r', outcome)) : Moves codec env renews r r' := by
  unfold showMessage at h
  simp only [bind_eq_ok] at h
  obtain ⟨_, -, _, -, _, -, h⟩ := h
  cases h
  refine cleanExpired_moves.trans (MailOnly.moves
    ⟨_, _, _, Posts.of_updateFirst fun m _ => readMessage_step m, rfl⟩ fun _ _ ha => ?_)
  exact updateMessage_awake ha fun message hlive => by simp [readMessage_silent] at hlive

theorem ack_moves {args : MessageArgs} {ifRevision : Nat} {key : String}
    (h : ack codec env args ifRevision key r = .ok (r', outcome)) :
    Moves codec env renews r r' := by
  unfold ack at h
  simp only [bind_eq_ok] at h
  obtain ⟨_, -, replay, hreplay, h⟩ := h
  cases replay with
  | some outcome' => cases h; exact .refl
  | none =>
    simp only [bind_eq_ok] at h
    obtain ⟨_, -, _, -, _, -, r₂, hstore, h⟩ := h
    cases h
    have hmail : MailOnly env (cleanExpired env env.now r)
        { cleanExpired env env.now r with
          messages := updateFirst args.names (acknowledgeMessage env.now)
            (cleanExpired env env.now r).messages } :=
      ⟨_, _, _, Posts.of_updateFirst fun m _ => .acknowledge m, rfl⟩
    have hawake : KeepsAwake env (cleanExpired env env.now r)
        { cleanExpired env env.now r with
          messages := updateFirst args.names (acknowledgeMessage env.now)
            (cleanExpired env env.now r).messages } := fun _ _ ha =>
      updateMessage_awake ha fun message hlive => by simp [acknowledgeMessage_silent] at hlive
    exact cleanExpired_moves.trans (stored_moves (hmail.moves hawake) hmail.receipts_eq (by simp)
      (receiptFree_of_replay hreplay) hstore)

theorem claimHookReminder_mail (r : Registry) (sessionId incarnation : String) (now : Int) :
    MailOnly env r (claimHookReminder codec env r sessionId incarnation now).1 := by
  unfold claimHookReminder
  split
  · exact .refl r
  · dsimp only
    split
    · exact normalizeRegistry_mail _ _
    · split
      · exact normalizeRegistry_mail _ _
      · split
        · exact (normalizeRegistry_mail _ _).trans (notifications_mail _ _)
        · exact normalizeRegistry_mail _ _

theorem reminder_moves {sessionId incarnation agent : String}
    (h : reminder codec env sessionId incarnation agent r = .ok (r', outcome)) :
    Moves codec env renews r r' := by
  unfold reminder at h
  simp only [bind_eq_ok] at h
  obtain ⟨_, -, h⟩ := h
  cases h
  have hresolved : Moves codec env renews r
      (resolveDrainedGeneration (cleanExpired env env.now r) sessionId incarnation env.now) :=
    cleanExpired_moves.trans ((resolveDrainedGeneration_mail _ _ _ _).moves fun _ hle ha =>
      resolveDrainedGeneration_awake ha hle)
  split
  · split
    · exact hresolved
    · exact .refl
  · split
    · exact hresolved.trans ((claimHookReminder_mail _ _ _ _).moves fun _ _ ha =>
        claimHookReminder_awake ha)
    · exact .refl

/-! ## The notification controller -/

theorem transitionAttemptAt_mail (r : Registry) (candidate : NotificationCandidate)
    (now attemptedAt : Int) :
    MailOnly env r (transitionAttemptAt codec r candidate now attemptedAt).1 := by
  unfold transitionAttemptAt
  dsimp only
  split
  · exact normalizeRegistry_mail _ _
  · split
    · exact (normalizeRegistry_mail _ _).trans (notifications_mail _ _)
    · exact normalizeRegistry_mail _ _

theorem beginNotificationAttempt_mail (r : Registry) (candidate : NotificationCandidate)
    (attemptedAt : Int) (blocked : Bool) :
    MailOnly env r (beginNotificationAttempt codec env candidate attemptedAt blocked r).1 := by
  unfold beginNotificationAttempt
  split
  · exact .refl r
  · split
    · exact resolveDrainedGeneration_mail _ _ _ _
    · have hmail := @transitionAttemptAt_mail codec env r candidate env.now attemptedAt
      split
      case h_1 attempted _ heq =>
        rw [heq] at hmail
        exact hmail
      case h_2 => exact .refl r

theorem updateAttempt_mail {updated : Option Registry}
    (h : ∀ r', updated = some r' → MailOnly env r r') : MailOnly env r (updateAttempt r updated).1 := by
  unfold updateAttempt
  split
  case h_1 r' => exact h r' rfl
  case h_2 => exact .refl r

theorem updateMatching_mail
    {f : NotificationReceipt → NotificationReceipt} (h : updateMatching r candidate f = some r') :
    MailOnly env r r' := by
  unfold updateMatching at h
  obtain ⟨receipt, -, rfl⟩ := Option.map_eq_some_iff.mp h
  exact notifications_mail r _

theorem markUndeliverable_mail {reason : String}
    (h : markUndeliverable codec r candidate reason now = some r') : MailOnly env r r' := by
  unfold markUndeliverable at h
  dsimp only at h
  split at h
  · cases h
  · split at h
    · obtain ⟨receipt, -, rfl⟩ := Option.map_eq_some_iff.mp h
      exact ((normalizeRegistry_mail now r).trans (normalizeRegistry_mail now _)).trans
        (notifications_mail _ _)
    · cases h

theorem deferWithDetail_mail {reason : String} {detail : Option String} {retryAfter : Int}
    (h : deferWithDetail codec env r candidate reason detail retryAfter now = some r') :
    MailOnly env r r' := by
  unfold deferWithDetail at h
  dsimp only at h
  split at h
  · cases h
  · split_ifs at h
    cases h
    exact (normalizeRegistry_mail now r).trans (notifications_mail _ _)

theorem body_moves (hw : Work r) (sec : Section) :
    SectionMoves codec env renews r (body codec env sec r).1 := by
  have hcommit : ∀ {b : Except CliError (Registry × Outcome)},
      (∀ r' outcome, b = .ok (r', outcome) → Moves codec env renews r r') →
      SectionMoves codec env renews r (commit r b).1 := fun h =>
    .of_moves (commit_induction .refl h)
  cases sec with
  | maintain | admitObserved | receiveObserved => exact .refl r
  | clean => exact .of_moves cleanExpired_moves
  | claim args => exact commit_induction (.refl r) fun _ _ h => claim_moves hw h
  | setDeclared args => exact commit_induction (.refl r) fun _ _ h => setDeclared_moves hw h
  | clearDeclared => exact hcommit fun _ _ h => clearDeclared_moves h
  | renew => exact hcommit fun _ _ h => renew_moves h
  | release => exact .of_moves releaseSection_moves
  | admitOperation => exact commit_induction (.refl r) fun _ _ h => admit_moves h
  | complete => exact .of_moves completeSection_moves
  | drain => exact hcommit fun _ _ h => drainSection_moves h
  | completeReplay => exact hcommit fun _ _ h => completeReplay_eq h ▸ .refl
  | reconcile => exact .of_moves (reconcileSection_moves hw)
  | operatorReconcile => exact .of_moves operatorReconcileSection_moves
  | provision => exact .of_moves provision_moves
  | revoke => exact .of_moves revoke_moves
  | forgetRevokedFailedLaunch => exact hcommit fun _ _ h => forgetRevokedFailedLaunch_moves h
  | markDegraded => exact .of_moves markDegraded_moves
  | recoverBegin => exact hcommit fun _ _ h => recoverBegin_moves h
  | recoverCommit => exact hcommit fun _ _ h => recoverCommit_moves h
  | retire => exact hcommit fun _ _ h => retire_moves h
  | send => exact send_moves
  | recordReply =>
    exact .of_moves ((recordReply_mail _ _).moves fun _ _ ha => recordReply_awake ha)
  | receive => exact receive_moves
  | inbox => exact hcommit fun _ _ h => inbox_moves h
  | showMessage => exact hcommit fun _ _ h => showMessage_moves h
  | ack => exact hcommit fun _ _ h => ack_moves h
  | reminder => exact hcommit fun _ _ h => reminder_moves h
  | pending =>
    exact .of_moves (((normalizeRegistry_mail env.now r).trans (notifications_mail _ _)).moves
      fun _ hle ha => resolveDrainedGenerations_awake (normalizeRegistry_awake ha) hle)
  | beginAttempt =>
    exact .of_moves ((beginNotificationAttempt_mail _ _ _ _).moves fun _ hle ha =>
      beginNotificationAttempt_awake ha hle)
  | markSubmitted =>
    exact .of_moves ((updateAttempt_mail fun _ h => updateMatching_mail h).moves fun _ _ ha =>
      updateAttempt_awake ha fun _ h => transitionSubmitted_turns ha.wellKeyed h)
  | markKnownFailure =>
    exact .of_moves ((updateAttempt_mail fun _ h => updateMatching_mail h).moves fun _ _ ha =>
      updateAttempt_awake ha fun _ h => transitionKnownFailure_turns ha.wellKeyed h)
  | markUnknown =>
    exact .of_moves ((updateAttempt_mail fun _ h => updateMatching_mail h).moves fun _ _ ha =>
      updateAttempt_awake ha fun _ h => transitionUnknown_turns ha.wellKeyed h)
  | reconcileAbsent =>
    exact .of_moves ((updateAttempt_mail fun _ h => updateMatching_mail h).moves fun _ _ ha =>
      updateAttempt_awake ha fun _ h => transitionReconciledAbsent_turns ha.wellKeyed h)
  | markUndeliverable =>
    exact .of_moves ((updateAttempt_mail fun _ h => markUndeliverable_mail h).moves fun _ _ ha =>
      updateAttempt_awake ha fun _ h => markUndeliverable_turns ha.wellKeyed h)
  | deferAttempt =>
    exact .of_moves ((updateAttempt_mail fun _ h => deferWithDetail_mail h).moves fun _ _ ha =>
      updateAttempt_awake ha fun _ h => deferWithDetail_turns ha.wellKeyed h)

theorem exec_moves (hw : Work r) (sec : Section) :
    SectionMoves codec env (Renewed env r) r (exec codec env sec r).1 := by
  unfold exec locked
  split
  · exact body_moves hw sec
  · exact .after lockRegistry_moves (body_moves (hw.moves lockRegistry_moves) sec)

end NilsCli.Coordination
