import NilsCli.Coordination.WakeupTurns

/-!
# Wake-ups of live messages

`Awake t` says that at time `t` every live unread message has a wake-up receipt that is not
parked.
-/

namespace NilsCli.Coordination

open Lib

variable {x : NotificationReceipt} {f : NotificationReceipt → NotificationReceipt} {percent : Nat}
  {message' : StoredMessage} {projection : NotificationProjection}
  {machine previous current : String}

variable {message : StoredMessage} {sessionId incarnation : String}
  {messages : List StoredMessage} {k : NotificationKey}

variable {codec : Codec} {env : Env} {r r' : Registry} {now t : Int}

def StoredMessage.wakeKey (message : StoredMessage) : NotificationKey :=
  .recipient message.recipientSessionId message.recipientIncarnation

theorem addressedTo_iff :
    message.addressedTo sessionId incarnation ↔
      message.wakeKey = .recipient sessionId incarnation := by
  simp [StoredMessage.addressedTo, StoredMessage.wakeKey]

def LiveAt (t : Int) (messages : List StoredMessage) (k : NotificationKey) : Prop :=
  ∃ message ∈ messages, liveUnread t message ∧ message.wakeKey = k

def Woken (notifications : Table NotificationKey NotificationReceipt) (k : NotificationKey) :
    Prop := ∃ x, notifications.lookup k = some x ∧ Unparked x

structure Awake (t : Int) (r : Registry) : Prop where
  wellKeyed : WellKeyed r.notifications
  woken : ∀ k, LiveAt t r.messages k → Woken r.notifications k

theorem LiveAt.mono {messages' : List StoredMessage} (h : LiveAt t messages k)
    (hm : ∀ message ∈ messages, liveUnread t message →
      ∃ message' ∈ messages', liveUnread t message' ∧ message'.wakeKey = message.wakeKey) :
    LiveAt t messages' k := by
  obtain ⟨message, hmem, hlive, rfl⟩ := h
  obtain ⟨message', hmem', hlive', hkey⟩ := hm message hmem hlive
  exact ⟨message', hmem', hlive', hkey⟩

theorem liveAt_append
    : LiveAt t (messages ++ [message]) k ↔
      LiveAt t messages k ∨ (liveUnread t message ∧ message.wakeKey = k) := by
  simp only [LiveAt, List.mem_append, List.mem_singleton, or_and_right, exists_or, exists_eq_left]

/-- A message that is live at `t` was live before. -/
theorem liveUnread_mono (h : liveUnread t message) (hle : now ≤ t) :
    liveUnread now message := by
  unfold liveUnread at *
  rw [Bool.and_eq_true, decide_eq_true_eq] at *
  exact ⟨h.1, by omega⟩

namespace Awake

theorem empty : Awake t Registry.empty :=
  ⟨.empty, fun _ ⟨_, hm, _⟩ => by cases hm⟩

theorem fewer (h : Awake t r) (hn : r'.notifications = r.notifications)
    (hm : ∀ k, LiveAt t r'.messages k → LiveAt t r.messages k) : Awake t r' :=
  ⟨hn ▸ h.wellKeyed, fun k hk => hn ▸ h.woken k (hm k hk)⟩

theorem congr (h : Awake t r) (hn : r'.notifications = r.notifications)
    (hm : r'.messages = r.messages) : Awake t r' := h.fewer hn fun _ hk => hm ▸ hk

theorem turns (h : Awake t r)
    (ht : Turns (LiveAt t r.messages) (fun _ => True) r.notifications r'.notifications)
    (hm : ∀ k, LiveAt t r'.messages k → LiveAt t r.messages k) : Awake t r' :=
  ⟨ht.wellKeyed, fun k hk => ht.unparked (hm k hk) (h.woken k (hm k hk))⟩

theorem filter {p : NotificationKey → NotificationReceipt → Bool} (h : Awake t r)
    (hm : ∀ k, LiveAt t r'.messages k → LiveAt t r.messages k)
    (hn : r'.notifications = Table.filter p r.notifications)
    (hp : ∀ k x, r.notifications.lookup k = some x → LiveAt t r'.messages k → p k x) :
    Awake t r' := by
  have hlookup : ∀ k x, r'.notifications.lookup k = some x ↔
      r.notifications.lookup k = some x ∧ p k x := by
    intro k x
    rw [hn, Table.lookup_filter, Option.filter_eq_some_iff]
  constructor
  · exact ⟨fun k x hx => h.wellKeyed.key k x ((hlookup k x).mp hx).1,
      fun k x hx => h.wellKeyed.regular k x ((hlookup k x).mp hx).1⟩
  · intro k hk
    obtain ⟨x, hx, hu⟩ := h.woken k (hm k hk)
    exact ⟨x, (hlookup k x).mpr ⟨hx, hp k x hx hk⟩, hu⟩

end Awake

/-! ## Retention -/

theorem liveUnread_terminal (h : liveUnread t message) :
    message.state.terminal = false := by
  unfold liveUnread at h
  simp only [Bool.and_eq_true, decide_eq_true_eq] at h
  rw [h.1.2]
  rfl

theorem expireMessage_live (h : liveUnread t (expireMessage now message)) :
    expireMessage now message = message := by
  have hterminal := liveUnread_terminal h
  unfold expireMessage at *
  split
  case isTrue hexpired =>
    rw [if_pos hexpired] at hterminal
    cases hterminal
  case isFalse hlive =>
    rw [if_neg hlive] at hterminal
    split
    case isTrue hstamp =>
      rw [if_pos hstamp] at hterminal
      rw [Bool.and_eq_true] at hstamp
      cases hstamp.1.symm.trans hterminal
    case isFalse => rfl

theorem targetRetained_of_live (hkey : k = x.key) (hk : LiveAt t messages k) :
    targetRetained messages x := by
  obtain ⟨message, hmem, -, hmk⟩ := hk
  exact List.any_eq_true.mpr ⟨message, hmem, addressedTo_iff.mpr (hmk.trans hkey)⟩

/-- The keys of this release name no message. -/
theorem names_eq_false (hkey : k = x.key) (ids : List String) : k.names ids = false := by
  subst hkey
  rfl

theorem compactTerminalRecords_awake (h : Awake t r) : Awake t (compactTerminalRecords r) := by
  unfold compactTerminalRecords
  dsimp only
  generalize hm : r.messages.filter _ = messages
  refine h.filter (p := fun _ x => targetRetained messages x) (fun k hk => ?_) rfl fun k x hx hk => ?_
  · refine hk.mono fun message hmem hlive => ⟨message, ?_, hlive, rfl⟩
    rw [← hm] at hmem
    exact (List.mem_filter.mp hmem).1
  · exact targetRetained_of_live (h.wellKeyed.key k x hx) hk

theorem maintainRetention_awake (h : Awake t r) : Awake t (maintainRetention now r) := by
  unfold maintainRetention dropTimedOut
  dsimp only
  refine compactTerminalRecords_awake ?_
  replace h : Awake t (pruneQuotaRejections now r) := h.congr rfl rfl
  generalize pruneQuotaRejections now r = r at h ⊢
  generalize ((r.messages.map (expireMessage now)).filter (retentionOver now)).map
    (·.messageId) = removed
  generalize hm : (r.messages.map (expireMessage now)).filter
    (fun message => decide (message.messageId ∉ removed)) = messages
  refine h.filter (p := fun k x => !k.names removed &&
    (quotaPending now x || targetRetained messages x)) (fun k hk => ?_) rfl fun k x hx hk => ?_
  · refine hk.mono fun message hmem hlive => ?_
    rw [← hm] at hmem
    obtain ⟨original, horiginal, rfl⟩ := List.mem_map.mp (List.mem_filter.mp hmem).1
    exact ⟨original, horiginal, expireMessage_live hlive ▸ hlive, by rw [expireMessage_live hlive]⟩
  · have hkey := h.wellKeyed.key k x hx
    rw [names_eq_false hkey, targetRetained_of_live hkey hk]
    simp

/-! ## Scheduling and parking -/

theorem normalizeRegistry_awake (h : Awake t r) : Awake t (normalizeRegistry codec now r) :=
  h.turns (normalizeRegistry_turns h.wellKeyed) fun _ => id

theorem schedule_awake {sessionId incarnation : String} (h : Awake t r) (hsession : sessionId ≠ "")
    (hincarnation : incarnation ≠ "") :
    Awake t (schedule codec r sessionId incarnation now).1 ∧
      Woken (schedule codec r sessionId incarnation now).1.notifications
        (.recipient sessionId incarnation) := by
  obtain ⟨hturns, hwoken⟩ := @schedule_spec codec r now (LiveAt t r.messages) (fun _ => True)
    sessionId incarnation h.wellKeyed hsession hincarnation
  exact ⟨h.turns hturns fun _ => id, hwoken⟩

/-- Nothing is parked that a live message waits for. -/
theorem hasPendingContent_of_live (hle : now ≤ t)
    (hk : LiveAt t r.messages (.recipient sessionId incarnation)) :
    hasPendingContent r sessionId incarnation now := by
  obtain ⟨message, hmem, hlive, hkey⟩ := hk
  unfold hasPendingContent
  rw [Bool.or_eq_true]
  refine .inr (List.any_eq_true.mpr ⟨message, hmem, ?_⟩)
  rw [Bool.and_eq_true]
  exact ⟨addressedTo_iff.mpr hkey, liveUnread_mono hlive hle⟩

theorem resolveDrainedGeneration_awake (h : Awake t r)
    (hle : now ≤ t) : Awake t (resolveDrainedGeneration r sessionId incarnation now) := by
  have hmessages : (resolveDrainedGeneration r sessionId incarnation now).messages =
      r.messages := by
    unfold resolveDrainedGeneration
    split <;> rfl
  refine h.turns (resolveDrainedGeneration_turns h.wellKeyed fun hp hk => ?_)
    fun _ hk => hmessages ▸ hk
  exact hp (hasPendingContent_of_live hle hk)

theorem resolveDrainedGenerations_awake (h : Awake t r) (hle : now ≤ t) :
    Awake t (resolveDrainedGenerations r now) := by
  refine h.turns
    (resolveDrainedGenerations_turns h.wellKeyed fun sessionId incarnation hno hk => ?_) fun _ => id
  obtain ⟨message, hmem, hlive, hkey⟩ := hk
  exact hno message hmem (addressedTo_iff.mpr hkey) (liveUnread_mono hlive hle)

/-! ## Changes of one receipt outside its wake-up -/

structure Adorns (f : NotificationReceipt → NotificationReceipt) : Prop where
  transits : ∀ x, Transits x (f x)
  attempted : ∀ x, (f x).attemptedGeneration = x.attemptedGeneration
  state : ∀ x, (f x).state = x.state
  reason : ∀ x, (f x).lastReason = x.lastReason

theorem Adorns.turns {f : NotificationReceipt → NotificationReceipt} (hf : Adorns f)
    {awake begun : NotificationKey → Prop} {n : Table NotificationKey NotificationReceipt}
    (h : WellKeyed n) (k : NotificationKey) : Turns awake begun n (Table.modify k f n) :=
  .modify h fun x hx => ⟨(hf.transits x).same (h.regular k x hx) (hf.attempted x) (hf.state x)
    (hf.reason x), fun hs => .inr (hf.state x ▸ hs)⟩

theorem Adorns.awake (hf : Adorns f) (h : Awake t r) (k : NotificationKey) :
    Awake t { r with notifications := Table.modify k f r.notifications } :=
  h.turns (hf.turns h.wellKeyed k) fun _ => id

theorem Adorns.woken (hf : Adorns f)
    {n : Table NotificationKey NotificationReceipt} (h : WellKeyed n) (k : NotificationKey)
    {k' : NotificationKey} (hw : Woken n k') : Woken (Table.modify k f n) k' :=
  (@Adorns.turns f hf (fun _ => True) (fun _ => True) n h k).unparked trivial hw

theorem setAboveThreshold_adorns (above : Bool) : Adorns (setAboveThreshold above) :=
  ⟨fun _ => ⟨rfl, rfl, rfl, rfl⟩, fun _ => rfl, fun _ => rfl, fun _ => rfl⟩

theorem signalReceipt_adorns : Adorns (signalReceipt codec now) :=
  ⟨fun _ => ⟨rfl, rfl, rfl, rfl⟩, fun _ => rfl, fun _ => rfl, fun _ => rfl⟩

theorem coalesce_adorns (r : Registry) (message : StoredMessage) (interval : Int) :
    Adorns (coalesce codec r message interval now) := by
  refine ⟨fun x => ?_, fun x => ?_, fun x => ?_, fun x => ?_⟩ <;> unfold coalesce <;> split
  all_goals first | rfl | exact ⟨rfl, rfl, rfl, rfl⟩

section

variable (h : Awake t r)

include h

theorem signalQuota_awake
    (hsession : sessionId ≠ "") (hincarnation : incarnation ≠ "") :
    Awake t (signalQuota codec r sessionId incarnation now) :=
  signalReceipt_adorns.awake (schedule_awake h hsession hincarnation).1 _

/-! ## Admission -/

theorem rearmQuota_awake {recipient : String} :
    Awake t (rearmQuota r recipient percent now) := by
  unfold rearmQuota
  split
  case isTrue => exact h
  case isFalse =>
    have hf := setAboveThreshold_adorns false
    refine h.turns (.mapForward h.wellKeyed (fun k x hx => ?_)
      fun k => Table.lookup_mapVal _ _ k) fun _ => id
    have hreg := h.wellKeyed.regular k x hx
    split
    · exact ⟨(hf.transits x).same hreg rfl rfl rfl, fun _ => .inl trivial⟩
    · exact ⟨Transits.same ⟨rfl, rfl, rfl, rfl⟩ hreg rfl rfl rfl, fun _ => .inl trivial⟩

theorem evictTerminalMessages_awake {bytes : Nat} {keep : Option String} :
    Awake t (evictTerminalMessages r bytes keep) := by
  unfold evictTerminalMessages
  dsimp only
  generalize terminalEvictionPlan bytes _ _ = evicted
  refine h.filter (p := fun k _ => !k.names evicted)
    (fun k hk => hk.mono fun message hmem hlive => ?_) rfl fun k x hx _ => ?_
  · exact ⟨message, (List.mem_filter.mp hmem).1, hlive, rfl⟩
  · rw [names_eq_false (h.wellKeyed.key k x hx)]
    rfl

theorem admitMessage_awake {sender : SenderId} {recipient : String} {bytes : Nat}
    {keep : Option String} {nowMillis : Int} :
    Awake t (admitMessage r sender recipient bytes keep now nowMillis).1 := by
  unfold admitMessage
  dsimp only
  split_ifs <;> first | exact h | exact evictTerminalMessages_awake h

theorem quotaRejected_awake {sender : Origin} {recipient : Address}
    {category : Option MessageCategory} (hsession : recipient.sessionId ≠ "")
    (hincarnation : recipient.sessionIncarnation ≠ "") :
    Awake t (quotaRejected codec r sender recipient category now) := by
  unfold quotaRejected
  exact signalQuota_awake (h.congr rfl rfl) hsession hincarnation

theorem quotaAdmitted_awake
    (hsession : sessionId ≠ "") (hincarnation : incarnation ≠ "") :
    Awake t (quotaAdmitted codec r sessionId incarnation percent now).1 := by
  unfold quotaAdmitted
  dsimp only
  split
  · exact h
  · split
    · exact h
    · exact normalizeRegistry_awake ((setAboveThreshold_adorns true).awake
        (signalQuota_awake h hsession hincarnation) _)

end

/-! ## A new message -/

theorem policyAdmit_recipient
    (hp : policyAdmit codec env r message now = .ok (r', message', projection)) :
    message'.recipientSessionId = message.recipientSessionId ∧
      message'.recipientIncarnation = message.recipientIncarnation := by
  unfold policyAdmit at hp
  rw [bind_eq_ok] at hp
  obtain ⟨⟨suppressed, interval, percent⟩, -, hp⟩ := hp
  dsimp only at hp
  split at hp <;> cases hp <;> exact ⟨rfl, rfl⟩

theorem policyAdmit_spec
    (hp : policyAdmit codec env r message now = .ok (r', message', projection)) (h : Awake t r)
    (hsession : message.recipientSessionId ≠ "") (hincarnation : message.recipientIncarnation ≠ "") :
    Awake t r' ∧
      (message'.notificationSuppressed = true ∨ Woken r'.notifications message'.wakeKey) := by
  unfold policyAdmit at hp
  rw [bind_eq_ok] at hp
  obtain ⟨⟨suppressed, interval, percent⟩, -, hp⟩ := hp
  dsimp only at hp
  split at hp
  case isTrue hsilent =>
    cases hp
    exact ⟨h, .inl hsilent⟩
  case isFalse =>
    cases hp
    have hscheduled := @schedule_awake codec r now t _ _ h hsession hincarnation
    have hf := @coalesce_adorns codec now
      (schedule codec r message.recipientSessionId message.recipientIncarnation now).1
      { message with
        notificationSuppressed := suppressed && !isServiceSender message.senderSessionId } interval
    exact ⟨hf.awake hscheduled.1 _, .inr (hf.woken hscheduled.1.wellKeyed _ hscheduled.2)⟩

theorem appendMessage_awake (h : Awake t r)
    (hw : message.notificationSuppressed = true ∨ Woken r.notifications message.wakeKey) :
    Awake t { r with messages := r.messages ++ [message] } := by
  refine ⟨h.wellKeyed, fun k hk => ?_⟩
  rcases liveAt_append.mp hk with hk | ⟨hlive, rfl⟩
  · exact h.woken k hk
  · rcases hw with hsilent | hw
    · simp [liveUnread, hsilent] at hlive
    · exact hw

theorem updateMessage_awake {p : StoredMessage → Bool} {f : StoredMessage → StoredMessage}
    (h : Awake t r) (hf : ∀ message, liveUnread t (f message) →
      liveUnread t message ∧ (f message).wakeKey = message.wakeKey) :
    Awake t { r with messages := updateFirst p f r.messages } := by
  refine h.fewer rfl fun k hk => hk.mono fun message hmem hlive => ?_
  rcases mem_updateFirst hmem with hmem | ⟨original, hfind, rfl⟩
  · exact ⟨message, hmem, hlive, rfl⟩
  · obtain ⟨horiginal, hkey⟩ := hf original hlive
    exact ⟨original, List.mem_of_find?_eq_some hfind, horiginal, hkey.symm⟩

theorem recordReply_awake {parent : Option String} (h : Awake t r) :
    Awake t (recordReply r parent now) := by
  unfold recordReply
  split
  · exact h
  · refine updateMessage_awake h fun message hlive => ?_
    split at hlive <;> split <;> exact ⟨hlive, rfl⟩

@[simp] theorem recordReply_notifications (r : Registry) (parent : Option String) (now : Int) :
    (recordReply r parent now).notifications = r.notifications := by
  unfold recordReply
  split <;> rfl

theorem readMessage_silent : liveUnread t (readMessage message) = false := by
  unfold readMessage
  split
  case isTrue => simp [liveUnread]
  case isFalse h => simp [liveUnread, h]

theorem acknowledgeMessage_silent :
    liveUnread t (acknowledgeMessage now message) = false := by
  simp [liveUnread, acknowledgeMessage]

theorem carriedMessage_spec {createdMillis : Int} {carried : StoredMessage}
    (h : carriedMessage codec machine sessionId previous current createdMillis now message =
      some carried) :
    carried.wakeKey = .recipient sessionId current ∧
      carried.notificationSuppressed = message.notificationSuppressed := by
  unfold carriedMessage at h
  split at h
  case isTrue => cases h
  case isFalse hguard =>
    obtain ⟨forwarding, -, rfl⟩ := Option.map_eq_some_iff.mp h
    simp only [Bool.or_eq_true, decide_eq_true_eq, not_or, not_not] at hguard
    exact ⟨by rw [StoredMessage.wakeKey, hguard.1.1.1.1], rfl⟩

theorem carryUnreadAfterVerifiedResume_awake
    {createdMillis : Option Int} (h : Awake t r) (hsession : sessionId ≠ "")
    (hincarnation : current ≠ "") :
    Awake t (carryUnreadAfterVerifiedResume codec machine r sessionId createdMillis previous current
      now) := by
  unfold carryUnreadAfterVerifiedResume
  split
  case isTrue => exact h
  case isFalse =>
    split
    case h_1 => exact h
    case h_2 createdMillis =>
      dsimp only
      generalize hcarried : carriedMessage codec machine sessionId previous current createdMillis
        now = carried
      -- a live message is one that stays, or one that is carried to the resumed incarnation
      have hlive : ∀ k, LiveAt t (r.messages.map fun message => (carried message).getD message) k →
          LiveAt t r.messages k ∨ (k = .recipient sessionId current ∧
            r.messages.any fun message => (carried message).isSome &&
              !message.notificationSuppressed) := by
        rintro k ⟨message', hmem, hl, rfl⟩
        obtain ⟨message, hmessage, rfl⟩ := List.mem_map.mp hmem
        cases hc : carried message with
        | none =>
          rw [hc] at hl
          exact .inl ⟨message, hmessage, hl, rfl⟩
        | some moved =>
          obtain ⟨hkey, hsilent⟩ := carriedMessage_spec (hcarried ▸ hc)
          rw [hc] at hl
          simp only [Option.getD_some, liveUnread, Bool.and_eq_true, Bool.not_eq_true'] at hl
          refine .inr ⟨hkey, List.any_eq_true.mpr ⟨message, hmessage, ?_⟩⟩
          rw [hc, ← hsilent, hl.1.1]
          rfl
      -- the wake-up of the carried messages is scheduled as on the registry before the carry
      have hscheduled : ∀ messages, Turns (LiveAt t r.messages) (fun _ => True) r.notifications
          (schedule codec { r with messages := messages } sessionId current now).1.notifications ∧
          Woken (schedule codec { r with messages := messages } sessionId current
            now).1.notifications (.recipient sessionId current) := fun messages =>
        @schedule_spec codec { r with messages := messages } now (LiveAt t r.messages)
          (fun _ => True) sessionId current h.wellKeyed hsession hincarnation
      split
      case isTrue =>
        obtain ⟨hturns, hwoken⟩ := hscheduled
          (r.messages.map fun message => (carried message).getD message)
        refine ⟨hturns.wellKeyed, fun k hk => ?_⟩
        rcases hlive k hk with hk | ⟨rfl, -⟩
        · exact hturns.unparked hk (h.woken k hk)
        · exact hwoken
      case isFalse hno =>
        exact h.fewer rfl fun k hk => (hlive k hk).resolve_right fun hany => hno hany.2

/-! ## The hooks and the notification controller -/

theorem claimHookReminder_awake (h : Awake t r) :
    Awake t (claimHookReminder codec env r sessionId incarnation now).1 := by
  obtain ⟨hturns, hm⟩ := @claimHookReminder_turns codec env r now (LiveAt t r.messages)
    (fun _ => True) sessionId incarnation h.wellKeyed
  exact h.turns hturns fun _ hk => hm ▸ hk

theorem beginNotificationAttempt_awake {candidate : NotificationCandidate} {attemptedAt : Int}
    {blocked : Bool} (h : Awake t r) (hle : env.now ≤ t) :
    Awake t (beginNotificationAttempt codec env candidate attemptedAt blocked r).1 := by
  unfold beginNotificationAttempt
  split
  case isTrue => exact h
  case isFalse =>
    split
    case isTrue => exact resolveDrainedGeneration_awake h hle
    case isFalse =>
      have hturns := @transitionAttemptAt_turns codec r env.now (LiveAt t r.messages)
        (fun _ => True) h.wellKeyed candidate attemptedAt fun _ => trivial
      have hm : (transitionAttemptAt codec r candidate env.now attemptedAt).1.messages =
          r.messages := by
        rcases @transitionAttemptAt_cases codec r candidate env.now attemptedAt with
          heq | ⟨x, _, -, -, -, heq⟩ <;> rw [heq] <;> rfl
      split
      case h_1 attempted _ heq =>
        rw [heq] at hturns hm
        exact h.turns hturns fun _ hk => hm ▸ hk
      case h_2 => exact h

theorem updateAttempt_awake {updated : Option Registry} (h : Awake t r)
    (hu : ∀ r', updated = some r' →
      Turns (LiveAt t r.messages) (fun _ => True) r.notifications r'.notifications ∧
        r'.messages = r.messages) : Awake t (updateAttempt r updated).1 := by
  unfold updateAttempt
  split
  case h_1 r' =>
    obtain ⟨hturns, hm⟩ := hu r' rfl
    exact h.turns hturns fun _ hk => hm ▸ hk
  case h_2 => exact h

end NilsCli.Coordination
