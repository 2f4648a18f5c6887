import Mathlib.Algebra.Order.BigOperators.Group.List
import NilsCli.Coordination.Awake

/-!
# The life of a message

The messages of the registry change in two ways: some are dropped or changed, each by a
`MessageStep` (`Posts`), or one is appended that the mailbox admitted (`NewMessage`).
-/

namespace NilsCli.Coordination

open Lib

variable {recipient machine sessionId previous current : String}
  {projection : NotificationProjection} {parent : Option String} {createdMillis : Int}

variable {bytes : Nat} {keep : Option String}

variable {codec : Codec} {env : Env} {r r' : Registry} {messages : List StoredMessage}
  {m m' : StoredMessage} {now : Int}

/-! ## Changes -/

/-- One change of a message. -/
inductive MessageStep (env : Env) : StoredMessage → StoredMessage → Prop
  | stay (m : StoredMessage) : MessageStep env m m
  | expire {m : StoredMessage} (now : Int) (hnow : now = env.lockNow ∨ now = env.now)
      (h : ¬ m.state.terminal) (hexpires : m.expiresAtEpoch ≤ now) :
      MessageStep env m
        { m with
          state := .expired
          revision := u64Succ m.revision
          terminalAtEpoch := some now }
  | stamp {m : StoredMessage} (now : Int) (h : m.state.terminal) :
      MessageStep env m { m with terminalAtEpoch := some now }
  | read {m : StoredMessage} (h : m.state = .unread) :
      MessageStep env m { m with state := .read, revision := u64Succ m.revision }
  | acknowledge (m : StoredMessage) : MessageStep env m (acknowledgeMessage env.now m)
  | reply {m : StoredMessage} (h : m.replyByEpoch.isSome) (hnone : m.replySentAtEpoch = none) :
      MessageStep env m { m with replySentAtEpoch := some env.now }
  | carry {m : StoredMessage} (h : m.state = .unread) (forwarding : Option Provenance)
      (carry : ResumeCarry) (current : String) :
      MessageStep env m
        { m with
          forwarding := forwarding
          resumeCarry := some carry
          recipientIncarnation := current
          revision := u64Succ m.revision }

def quotaSizes (now : Int) (messages : List StoredMessage) (recipient : String) : List Nat :=
  (messages.filter fun message =>
    message.recipientSessionId = recipient && countsTowardQuota now message).map (·.bodyBytes)

def storedBytes (messages : List StoredMessage) : Nat :=
  ((messages.filter fun message => message.state ≠ .deleted).map (·.bodyBytes)).sum

structure Admissible (now : Int) (messages : List StoredMessage) (recipient : String)
    (size : Nat) : Prop where
  count : (quotaSizes now messages recipient).length < maxSessionMessages
  bytes : (quotaSizes now messages recipient).sum + size ≤ maxSessionBytes
  total : storedBytes messages + size ≤ maxRegistryBytes

/-- A message as the mailbox admits it. -/
structure NewMessage (env : Env) (messages : List StoredMessage) (message : StoredMessage) :
    Prop where
  fresh : message.messageId = env.uuid ∨ ∀ other ∈ messages, other.messageId ≠ message.messageId
  unread : message.state = .unread
  terminal : message.terminalAtEpoch = none
  unanswered : message.replySentAtEpoch = none
  created : message.createdAtEpoch = env.now
  room : Admissible env.now messages message.recipientSessionId message.bodyBytes

/-- Changes of messages, one after another. -/
abbrev Posts (env : Env) : List StoredMessage → List StoredMessage → Prop :=
  Relation.ReflTransGen (Evolves (MessageStep env))

/-- What a section does to the messages: changes, and at most one new message among them. -/
def SectionPosts (env : Env) (messages messages' : List StoredMessage) : Prop :=
  ∃ before after, Posts env messages before ∧
    (after = before ∨ ∃ message, NewMessage env before message ∧ after = before ++ [message]) ∧
    Posts env after messages'

theorem Posts.of_filter (p : StoredMessage → Bool) : Posts env messages (messages.filter p) :=
  .single (Evolves.of_filter fun m _ => .stay m)

theorem Posts.of_map {f : StoredMessage → StoredMessage}
    (h : ∀ m ∈ messages, MessageStep env m (f m)) : Posts env messages (messages.map f) :=
  .single (Evolves.of_map h)

theorem Posts.of_updateFirst {p : StoredMessage → Bool} {f : StoredMessage → StoredMessage}
    (h : ∀ m, messages.find? p = some m → MessageStep env m (f m)) :
    Posts env messages (updateFirst p f messages) :=
  .single (Evolves.of_updateFirst (fun m _ => .stay m) h)

/-! ## What a change keeps -/

namespace MessageStep

section

variable (h : MessageStep env m m')

include h

theorem same :
    m'.messageId = m.messageId ∧ m'.recipientSessionId = m.recipientSessionId ∧
      m'.createdAtEpoch = m.createdAtEpoch ∧ m'.expiresAtEpoch = m.expiresAtEpoch ∧
      m'.replyByEpoch = m.replyByEpoch ∧ m'.body = m.body := by
  cases h <;> exact ⟨rfl, rfl, rfl, rfl, rfl, rfl⟩

theorem bodyBytes : m'.bodyBytes = m.bodyBytes := by
  unfold StoredMessage.bodyBytes
  rw [h.same.2.2.2.2.2]

theorem terminal (ht : m.state.terminal) : m'.state.terminal := by
  cases h with
  | stay | stamp | reply => exact ht
  | expire | acknowledge => rfl
  | read h | carry h => rw [h] at ht; cases ht

/-- Only a terminal message has the time it became so. -/
theorem terminalAt (hm : ¬ m.state.terminal → m.terminalAtEpoch = none)
    (ht : ¬ m'.state.terminal) : m'.terminalAtEpoch = none := by
  cases h with
  | stay | reply => exact hm ht
  | stamp now h => exact absurd h ht
  | expire | acknowledge => exact absurd rfl ht
  | read h | carry h => exact hm (by rw [h]; decide)

theorem not_deleted (hm : m.state ≠ .deleted) : m'.state ≠ .deleted := by
  cases h with
  | stay | stamp | reply | carry => exact hm
  | expire | read => simp
  | acknowledge => simp [acknowledgeMessage]

/-- What counts toward the quota did so before. -/
theorem counts (hc : countsTowardQuota now m') :
    countsTowardQuota now m := by
  unfold countsTowardQuota at *
  rw [Bool.and_eq_true, Bool.not_eq_true'] at *
  rw [h.same.2.2.2.1] at hc
  refine ⟨?_, hc.2⟩
  by_contra hno
  rw [h.terminal (by simpa using hno)] at hc
  exact absurd hc.1 (by simp)

end

end MessageStep

/-! ## Retention -/

theorem expireMessage_step (hnow : now = env.lockNow ∨ now = env.now) (m : StoredMessage) :
    MessageStep env m (expireMessage now m) := by
  unfold expireMessage
  split
  case isTrue h =>
    rw [Bool.and_eq_true, Bool.not_eq_true', decide_eq_true_eq] at h
    exact .expire now hnow (by simp [h.1]) h.2
  case isFalse =>
    split
    case isTrue h =>
      rw [Bool.and_eq_true] at h
      exact .stamp now h.1
    case isFalse => exact .stay m

theorem maintainRetention_posts (hnow : now = env.lockNow ∨ now = env.now) :
    Posts env r.messages (maintainRetention now r).messages :=
  ((Posts.of_map fun m _ => expireMessage_step hnow m).trans (Posts.of_filter _)).trans
    (Posts.of_filter _)

theorem evictTerminalMessages_posts :
    Posts env r.messages (evictTerminalMessages r bytes keep).messages := Posts.of_filter _

/-! ## Admission -/

theorem quotaSizes_filter (p : StoredMessage → Bool) (recipient : String) :
    (quotaSizes now (messages.filter p) recipient).Sublist (quotaSizes now messages recipient) :=
  (List.Sublist.filter _ List.filter_sublist).map _

theorem evictTerminalMessages_sizes (recipient : String) :
    (quotaSizes now (evictTerminalMessages r bytes keep).messages recipient).Sublist
      (quotaSizes now r.messages recipient) := quotaSizes_filter _ recipient

theorem admitMessage_admissible {sender : SenderId} {nowMillis : Int}
    (h : admitMessage r sender recipient bytes keep now nowMillis = (r', .ok ())) :
    Admissible now r'.messages recipient bytes := by
  have hlive : (liveFor r recipient now).map (·.bodyBytes) = quotaSizes now r.messages recipient :=
    rfl
  have hlength : (liveFor r recipient now).length =
      (quotaSizes now r.messages recipient).length := by
    rw [← hlive, List.length_map]
  unfold admitMessage at h
  dsimp only at h
  rw [hlive, hlength] at h
  generalize hr : (if registryMessageBytes r + bytes > maxRegistryBytes then
    evictTerminalMessages r bytes keep else r) = evicted at h
  have hsub : (quotaSizes now evicted.messages recipient).Sublist
      (quotaSizes now r.messages recipient) := by
    rw [← hr]
    split
    · exact evictTerminalMessages_sizes recipient
    · exact List.Sublist.refl _
  split_ifs at h with h₁ h₂ h₃ h₄ h₅
  · cases h
  · cases h
  · cases h
  · cases h
  · cases h
  cases h
  have hlen := hsub.length_le
  have hsum : (quotaSizes now r'.messages recipient).sum ≤
      (quotaSizes now r.messages recipient).sum := hsub.sum_le_sum fun _ _ => Nat.zero_le _
  exact ⟨by omega, by omega, Nat.le_of_not_lt h₅⟩

theorem admitMessage_subset {sender : SenderId} {recipient : String} {bytes : Nat}
    {keep : Option String} {nowMillis : Int} :
    (admitMessage r sender recipient bytes keep now nowMillis).1.messages ⊆ r.messages := by
  unfold admitMessage
  dsimp only
  split_ifs <;> first | exact List.Subset.refl _ | exact List.filter_subset_self _

theorem policyAdmit_message (h : policyAdmit codec env r m now = .ok (r', m', projection)) :
    r'.messages = r.messages ∧ ∃ suppressed, m' = { m with notificationSuppressed := suppressed } := by
  unfold policyAdmit at h
  rw [bind_eq_ok] at h
  obtain ⟨⟨suppressed, interval, percent⟩, -, h⟩ := h
  dsimp only at h
  split at h <;> cases h <;> exact ⟨rfl, _, rfl⟩

theorem NewMessage.admitted (h : NewMessage env r.messages m)
    (hpolicy : policyAdmit codec env r m env.now = .ok (r', m', projection)) :
    NewMessage env r'.messages m' := by
  obtain ⟨hmessages, suppressed, rfl⟩ := policyAdmit_message hpolicy
  rw [hmessages]
  exact { h with }

/-! ## Replies, reading and resuming -/

/-- The update that `record_reply` makes. -/
def answered (now : Int) (message : StoredMessage) : StoredMessage :=
  if message.replyByEpoch.isSome && message.replySentAtEpoch.isNone then
    { message with replySentAtEpoch := some now } else message

theorem recordReply_messages (parent : Option String) (now : Int) :
    (recordReply r parent now).messages = match parent with
      | none => r.messages
      | some parent => updateFirst (fun message => message.messageId = parent) (answered now)
        r.messages := by
  cases parent <;> rfl

theorem answered_step (m : StoredMessage) : MessageStep env m (answered env.now m) := by
  unfold answered
  split
  case isTrue h =>
    rw [Bool.and_eq_true, Option.isNone_iff_eq_none] at h
    exact .reply h.1 h.2
  case isFalse => exact .stay m

theorem recordReply_posts {parent : Option String} :
    Posts env r.messages (recordReply r parent env.now).messages := by
  rw [recordReply_messages]
  split
  · exact .refl
  · exact Posts.of_updateFirst fun m _ => answered_step m

theorem recordReply_admissible {size : Nat} (h : Admissible now r.messages recipient size) :
    Admissible now (recordReply r parent now).messages recipient size := by
  rw [recordReply_messages]
  split
  · exact h
  · rename_i parent
    have hstate : ∀ m, (answered now m).state = m.state := fun m => by
      unfold answered; split <;> rfl
    have hcount : ∀ m, (decide ((answered now m).recipientSessionId = recipient) &&
        countsTowardQuota now (answered now m)) =
        (decide (m.recipientSessionId = recipient) && countsTowardQuota now m) := fun m => by
      unfold answered; split <;> rfl
    have hsize : ∀ m, (answered now m).bodyBytes = m.bodyBytes := fun m => by
      unfold answered; split <;> rfl
    have hsizes : quotaSizes now (updateFirst (fun message => message.messageId = parent)
        (answered now) r.messages) recipient = quotaSizes now r.messages recipient :=
      filter_map_updateFirst hcount hsize
    have hstored : storedBytes (updateFirst (fun message => message.messageId = parent)
        (answered now) r.messages) = storedBytes r.messages :=
      congrArg List.sum (filter_map_updateFirst (fun m => by rw [hstate]) hsize)
    exact ⟨hsizes ▸ h.count, hsizes ▸ h.bytes, hstored ▸ h.total⟩

theorem NewMessage.recordReply (h : NewMessage env r.messages m) :
    NewMessage env (recordReply r parent env.now).messages m := by
  refine { h with fresh := h.fresh.imp_right fun hall => ?_, room := recordReply_admissible h.room }
  rw [recordReply_messages]
  split
  · exact hall
  · intro other hother
    obtain ⟨x, hx, hstep⟩ := (Evolves.of_updateFirst (R := MessageStep env)
      (fun m _ => .stay m) fun m _ => answered_step m).mem hother
    exact hstep.same.1 ▸ hall x hx

theorem readMessage_step (m : StoredMessage) : MessageStep env m (readMessage m) := by
  unfold readMessage
  split
  case isTrue h => exact .read h
  case isFalse => exact .stay m

theorem carriedMessage_step
    (h : carriedMessage codec machine sessionId previous current createdMillis now m = some m') :
    MessageStep env m m' := by
  unfold carriedMessage at h
  split at h
  case isTrue => cases h
  case isFalse hno =>
    obtain ⟨forwarding, -, rfl⟩ := Option.map_eq_some_iff.mp h
    refine .carry ?_ _ _ _
    simp only [Bool.or_eq_true, decide_eq_true_eq, not_or] at hno
    exact not_not.mp hno.1.1.2

theorem carriedMessages_posts :
    Posts env messages (messages.map fun message =>
      (carriedMessage codec machine sessionId previous current createdMillis now message).getD
        message) := by
  refine Posts.of_map fun m _ => ?_
  cases h : carriedMessage codec machine sessionId previous current createdMillis now m with
  | none => exact .stay m
  | some m' => exact carriedMessage_step h

end NilsCli.Coordination
