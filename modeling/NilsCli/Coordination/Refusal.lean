import NilsCli.Coordination.History
import NilsCli.Coordination.Mailbox

/-!
# A refused admission

When the bodies of the registry and a new one do not fit, `admit_message` evicts terminal messages
before it looks at the quotas of the recipient, and what it evicted stays evicted when it refuses
the message.
-/

namespace NilsCli.Coordination

open Lib List

variable {messages : List StoredMessage} {m : StoredMessage}

variable {r : Registry} {sender : SenderId} {recipient : String} {size : Nat}
  {keep : Option String} {now nowMillis : Int}

/-! ## What is evicted -/

def reclaimable (keep : Option String) (message : StoredMessage) : Bool :=
  (message.state = .acknowledged || message.state = .expired) && some message.messageId ≠ keep

/-- The reclaimable messages, oldest first. -/
def reclaimOrder (keep : Option String) (messages : List StoredMessage) : List StoredMessage :=
  terminalHistory (messages.filter (reclaimable keep))

theorem mem_reclaimOrder :
    m ∈ reclaimOrder keep messages ↔ m ∈ messages ∧ reclaimable keep m := by
  rw [reclaimOrder, terminalHistory_eq, mem_sortBy, mem_filter, mem_filter]
  constructor
  · exact fun h => h.1
  · intro h
    refine ⟨h, ?_⟩
    have hstate := h.2
    unfold reclaimable at hstate
    rw [Bool.and_eq_true, Bool.or_eq_true, decide_eq_true_eq, decide_eq_true_eq] at hstate
    rcases hstate.1 with hs | hs <;> rw [hs] <;> rfl

def unreclaimableBytes (keep : Option String) (messages : List StoredMessage) : Nat :=
  ((messages.filter fun m => m.state ≠ .deleted &&
    m.messageId ∉ (reclaimOrder keep messages).map (·.messageId)).map (·.bodyBytes)).sum

/-- The bodies outside the history, those of the rest of the history and the new one fit. -/
def FitsRegistry (outside size : Nat) (rest : List StoredMessage) : Prop :=
  outside + (rest.map (·.bodyBytes)).sum + size ≤ maxRegistryBytes

instance (outside size : Nat) (rest : List StoredMessage) :
    Decidable (FitsRegistry outside size rest) := inferInstanceAs (Decidable (_ ≤ _))

theorem terminalEvictionPlan_eq (outside : Nat) (history : List StoredMessage) :
    terminalEvictionPlan size (outside + (history.map (·.bodyBytes)).sum) history =
      (evicted (FitsRegistry outside size) history).map (·.messageId) := by
  induction history with
  | nil => rfl
  | cons m history ih =>
    rw [terminalEvictionPlan, evicted]
    by_cases h : FitsRegistry outside size (m :: history)
    · rw [if_pos h]
      exact if_pos h
    · rw [if_neg h, map_cons (l := evicted _ history), ← ih]
      refine (if_neg h).trans ?_
      rw [map_cons, sum_cons]
      congr 2
      omega

/-- The bodies that are not reclaimable. -/
def outsideBytes (keep : Option String) (messages : List StoredMessage) : Nat :=
  ((messages.filter fun m => m.state ≠ .deleted && !reclaimable keep m).map (·.bodyBytes)).sum

theorem sum_filter_add (p : StoredMessage → Bool) (messages : List StoredMessage) :
    (messages.map (·.bodyBytes)).sum = ((messages.filter fun m => !p m).map (·.bodyBytes)).sum +
      ((messages.filter p).map (·.bodyBytes)).sum := by
  induction messages with
  | nil => rfl
  | cons m messages ih =>
    rw [map_cons, sum_cons, ih]
    by_cases h : p m
    · simp [h]
      omega
    · simp [h]
      omega

theorem registryMessageBytes_eq (keep : Option String) (r : Registry) :
    registryMessageBytes r = outsideBytes keep r.messages +
      ((reclaimOrder keep r.messages).map (·.bodyBytes)).sum := by
  have hperm : (reclaimOrder keep r.messages).Perm
      ((r.messages.filter fun m => m.state ≠ .deleted).filter (reclaimable keep)) := by
    refine (perm_sortBy _ _).trans (List.Perm.of_eq ?_)
    rw [filter_filter, filter_filter]
    refine filter_congr fun m _ => ?_
    unfold reclaimable
    cases hs : m.state <;> simp [MessageState.terminal]
  rw [(hperm.map _).sum_eq, outsideBytes, registryMessageBytes, sum_filter_add (reclaimable keep),
    filter_filter]
  simp only [Bool.and_comm]

/-- The ids that the eviction drops. -/
def evictedIds (size : Nat) (keep : Option String) (messages : List StoredMessage) : List String :=
  (evicted (FitsRegistry (outsideBytes keep messages) size) (reclaimOrder keep messages)).map
    (·.messageId)

theorem evictTerminalMessages_eq (size : Nat) (keep : Option String) (r : Registry) :
    evictTerminalMessages r size keep =
      { r with
        messages := r.messages.filter fun m => m.messageId ∉ evictedIds size keep r.messages
        notifications := Table.filter (fun key _ =>
          !key.names (evictedIds size keep r.messages)) r.notifications } := by
  have hplan : terminalEvictionPlan size (registryMessageBytes r)
      (terminalHistory (r.messages.filter (reclaimable keep))) =
      evictedIds size keep r.messages := by
    rw [registryMessageBytes_eq keep r]
    exact terminalEvictionPlan_eq _ _
  rw [← hplan]
  rfl

theorem evictedIds_subset {id : String} (h : id ∈ evictedIds size keep messages) :
    id ∈ (reclaimOrder keep messages).map (·.messageId) := by
  obtain ⟨m, hm, rfl⟩ := List.mem_map.mp h
  have happend := evicted_append_kept (FitsRegistry (outsideBytes keep messages) size)
    (reclaimOrder keep messages)
  exact mem_map_of_mem (happend ▸ mem_append_left _ hm)

theorem registryMessageBytes_evict_le :
    registryMessageBytes (evictTerminalMessages r size keep) ≤ outsideBytes keep r.messages +
      ((kept (FitsRegistry (outsideBytes keep r.messages) size)
        (reclaimOrder keep r.messages)).map (·.bodyBytes)).sum := by
  generalize hids : evictedIds size keep r.messages = ids
  have hrest : ((reclaimOrder keep r.messages).filter fun m => decide (m.messageId ∉ ids)).Sublist
      (kept (FitsRegistry (outsideBytes keep r.messages) size) (reclaimOrder keep r.messages)) := by
    have hevicted : (evicted (FitsRegistry (outsideBytes keep r.messages) size)
        (reclaimOrder keep r.messages)).filter (fun m => decide (m.messageId ∉ ids)) = [] := by
      refine List.filter_eq_nil_iff.mpr fun m hm => ?_
      rw [decide_eq_true_eq, not_not, ← hids]
      exact mem_map_of_mem hm
    conv_lhs => rw [← evicted_append_kept (FitsRegistry (outsideBytes keep r.messages) size)
      (reclaimOrder keep r.messages)]
    rw [filter_append, hevicted, nil_append]
    exact filter_sublist
  have horder : (reclaimOrder keep (r.messages.filter fun m => m.messageId ∉ ids)).Perm
      ((reclaimOrder keep r.messages).filter fun m => decide (m.messageId ∉ ids)) := by
    refine (perm_sortBy _ _).trans (List.Perm.trans (List.Perm.of_eq ?_)
      ((perm_sortBy _ _).filter _).symm)
    simp only [filter_filter]
    refine filter_congr fun m _ => ?_
    cases m.state.terminal <;> cases reclaimable keep m <;> simp
  have houtside : outsideBytes keep (r.messages.filter fun m => m.messageId ∉ ids) ≤
      outsideBytes keep r.messages :=
    (((filter_sublist).filter _).map _).sum_le_sum fun _ _ => Nat.zero_le _
  have hbytes : registryMessageBytes (evictTerminalMessages r size keep) =
      outsideBytes keep (r.messages.filter fun m => m.messageId ∉ ids) +
        ((reclaimOrder keep (r.messages.filter fun m => m.messageId ∉ ids)).map (·.bodyBytes)).sum := by
    rw [registryMessageBytes_eq keep, evictTerminalMessages_eq, hids]
  rw [hbytes, (horder.map _).sum_eq]
  have hsum := (hrest.map (·.bodyBytes)).sum_le_sum fun _ _ => Nat.zero_le _
  omega

theorem evictTerminalMessages_fits :
    registryMessageBytes (evictTerminalMessages r size keep) + size ≤ maxRegistryBytes ↔
      unreclaimableBytes keep r.messages + size ≤ maxRegistryBytes := by
  constructor
  · intro h
    have hsub : (r.messages.filter fun m => m.state ≠ .deleted &&
        m.messageId ∉ (reclaimOrder keep r.messages).map (·.messageId)).Sublist
        ((r.messages.filter fun m => m.messageId ∉ evictedIds size keep r.messages).filter
          fun m => m.state ≠ .deleted) := by
      rw [filter_filter]
      refine monotone_filter_right _ fun m hm => ?_
      simp only [Bool.and_eq_true, decide_eq_true_eq] at hm ⊢
      exact ⟨hm.1, fun hmem => hm.2 (evictedIds_subset hmem)⟩
    have hsum : unreclaimableBytes keep r.messages ≤
        registryMessageBytes (evictTerminalMessages r size keep) := by
      rw [evictTerminalMessages_eq]
      exact (hsub.map _).sum_le_sum fun _ _ => Nat.zero_le _
    omega
  · intro h
    by_cases hnil : kept (FitsRegistry (outsideBytes keep r.messages) size)
        (reclaimOrder keep r.messages) = []
    · -- all of the history goes
      have hall : evicted (FitsRegistry (outsideBytes keep r.messages) size)
          (reclaimOrder keep r.messages) = reclaimOrder keep r.messages := by
        have happend := evicted_append_kept
          (FitsRegistry (outsideBytes keep r.messages) size) (reclaimOrder keep r.messages)
        rwa [hnil, append_nil] at happend
      have hbytes : registryMessageBytes (evictTerminalMessages r size keep) =
          unreclaimableBytes keep r.messages := by
        rw [evictTerminalMessages_eq, evictedIds, hall]
        unfold registryMessageBytes unreclaimableBytes
        rw [filter_filter]
      rw [hbytes]
      exact h
    · have hfits : outsideBytes keep r.messages +
          ((kept (FitsRegistry (outsideBytes keep r.messages) size)
            (reclaimOrder keep r.messages)).map (·.bodyBytes)).sum + size ≤ maxRegistryBytes :=
        fits_of_kept_ne_nil hnil
      have hle := @registryMessageBytes_evict_le r size keep
      omega

theorem evictTerminalMessages_ne (hover : maxRegistryBytes < registryMessageBytes r + size)
    (hm : m ∈ r.messages) (hrec : reclaimable keep m) :
    (evictTerminalMessages r size keep).messages ≠ r.messages := by
  have hmem := mem_reclaimOrder.mpr ⟨hm, hrec⟩
  rw [registryMessageBytes_eq keep] at hover
  have hids : evictedIds size keep r.messages = (evicted (FitsRegistry
    (outsideBytes keep r.messages) size) (reclaimOrder keep r.messages)).map (·.messageId) := rfl
  cases horder : reclaimOrder keep r.messages with
  | nil =>
    rw [horder] at hmem
    cases hmem
  | cons x rest =>
    have hx : x ∈ r.messages := (mem_reclaimOrder.mp (horder ▸ mem_cons_self)).1
    rw [horder] at hover hids
    have hno : ¬ FitsRegistry (outsideBytes keep r.messages) size (x :: rest) := by
      unfold FitsRegistry
      omega
    intro heq
    have heq : r.messages.filter (fun m => decide (m.messageId ∉ evictedIds size keep r.messages)) =
        r.messages := by rwa [evictTerminalMessages_eq] at heq
    have hkept : x ∈ r.messages.filter fun m => m.messageId ∉ evictedIds size keep r.messages := by
      rw [heq]
      exact hx
    rw [mem_filter, decide_eq_true_eq, hids] at hkept
    exact hkept.2 (mem_map_of_mem (mem_evicted_head hno))

theorem evictTerminalMessages_self (h : ∀ m ∈ r.messages, ¬ reclaimable keep m) :
    evictTerminalMessages r size keep = r := by
  have hnil : reclaimOrder keep r.messages = [] := by
    refine List.eq_nil_iff_forall_not_mem.mpr fun m hm => ?_
    obtain ⟨hmem, hrec⟩ := mem_reclaimOrder.mp hm
    exact h m hmem hrec
  have hids : evictedIds size keep r.messages = [] := by
    rw [evictedIds, hnil]
    rfl
  rw [evictTerminalMessages_eq, hids]
  have hmessages : (r.messages.filter fun m => m.messageId ∉ ([] : List String)) = r.messages :=
    List.filter_eq_self.mpr fun m _ => by simp
  have hnotifications : Table.filter (fun key _ => !key.names []) r.notifications =
      r.notifications := by
    refine Table.filter_eq_self fun key _ _ => ?_
    cases key <;> simp [NotificationKey.names]
  rw [hmessages, hnotifications]

/-! ## The refusal -/

def RateLimited (r : Registry) (sender : SenderId) (recipient : String) (now nowMillis : Int) :
    Prop :=
  pairCount r sender recipient (fun m => m.createdAtEpoch > i64Sub now 60) ≥ pairRatePerMinute ∨
    pairCount r sender recipient (fun m => m.createdAtEpochMillis > i64Sub nowMillis 1000) ≥
      pairBurst

structure HasRoom (r : Registry) (recipient : String) (size : Nat) (keep : Option String)
    (now : Int) : Prop where
  count : (liveFor r recipient now).length < maxSessionMessages
  bytes : ((liveFor r recipient now).map (·.bodyBytes)).sum + size ≤ maxSessionBytes
  total : unreclaimableBytes keep r.messages + size ≤ maxRegistryBytes

/-- Nothing is reclaimed in vain. -/
def Undisturbed (r : Registry) (sender : SenderId) (recipient : String) (size : Nat)
    (keep : Option String) (now nowMillis : Int) : Prop :=
  RateLimited r sender recipient now nowMillis ∨
    registryMessageBytes r + size ≤ maxRegistryBytes ∨
    (∀ m ∈ r.messages, ¬ reclaimable keep m) ∨ HasRoom r recipient size keep now

theorem admitMessage_cases (h : ¬ RateLimited r sender recipient now nowMillis)
    (hover : maxRegistryBytes < registryMessageBytes r + size) :
    (admitMessage r sender recipient size keep now nowMillis).1 =
        evictTerminalMessages r size keep ∧
      ((∃ error, (admitMessage r sender recipient size keep now nowMillis).2 = .error error) ↔
        ¬ HasRoom r recipient size keep now) := by
  have hfits := @evictTerminalMessages_fits r size keep
  obtain ⟨hrate, hburst⟩ := not_or.mp h
  unfold admitMessage
  dsimp only
  rw [if_neg hrate, if_neg hburst, if_pos hover]
  split_ifs with hcount hbytes htotal
  · exact ⟨rfl, fun _ hroom => by have := hroom.count; omega, fun _ => ⟨_, rfl⟩⟩
  · exact ⟨rfl, fun _ hroom => by have := hroom.bytes; omega, fun _ => ⟨_, rfl⟩⟩
  · exact ⟨rfl, fun _ hroom => by have := hfits.mpr hroom.total; omega, fun _ => ⟨_, rfl⟩⟩
  · have hroom : HasRoom r recipient size keep now :=
      ⟨by omega, by omega, hfits.mp (by omega)⟩
    exact ⟨rfl, iff_of_false (by rintro ⟨_, h⟩; cases h) (not_not.mpr hroom)⟩

theorem admitMessage_refused (hu : Undisturbed r sender recipient size keep now nowMillis)
    {error : CliError}
    (he : (admitMessage r sender recipient size keep now nowMillis).2 = .error error) :
    (admitMessage r sender recipient size keep now nowMillis).1 = r := by
  by_cases hrate : RateLimited r sender recipient now nowMillis
  · unfold admitMessage
    dsimp only
    rcases hrate with hrate | hburst
    · rw [if_pos hrate]
    · rw [if_pos hburst]
      split <;> rfl
  · by_cases hover : maxRegistryBytes < registryMessageBytes r + size
    · obtain ⟨hfirst, hrefused⟩ := @admitMessage_cases r sender recipient size keep now nowMillis
        hrate hover
      rw [hfirst]
      rcases hu with hu | hu | hu | hroom
      · exact absurd hu hrate
      · omega
      · exact evictTerminalMessages_self hu
      · exact absurd hroom (hrefused.mp ⟨error, he⟩)
    · obtain ⟨hr, hb⟩ := not_or.mp hrate
      unfold admitMessage
      dsimp only
      rw [if_neg hr, if_neg hb, if_neg hover]
      split_ifs <;> rfl

def quotaMessage (index recipient : String) (state : MessageState) (bytes : Nat) :
    StoredMessage :=
  { messageId := "message-" ++ index
    senderSessionId := .session ("sender-" ++ index)
    senderIncarnation := "incarnation"
    recipientSessionId := recipient
    recipientIncarnation := "incarnation"
    state
    revision := 0
    replyTo := none
    replyByEpoch := none
    replySentAtEpoch := none
    replyDepth := 0
    createdAtEpoch := 996400
    remoteCreatedAtEpoch := none
    createdAtEpochMillis := 996400000
    expiresAtEpoch := 1003600
    terminalAtEpoch := if state = .acknowledged then some 999940 else none
    forwardedAtEpoch := none
    category := none
    notificationSuppressed := false
    forwarding := none
    resumeCarry := none
    body := String.ofList (List.replicate bytes 'a') }

theorem quotaMessage_bodyBytes (index recipient : String) (state : MessageState) (bytes : Nat) :
    (quotaMessage index recipient state bytes).bodyBytes = bytes := by
  change (String.ofList (replicate bytes 'a')).utf8ByteSize = bytes
  induction bytes with
  | zero => rfl
  | succ n ih =>
    rw [replicate_succ', String.ofList_append, String.utf8ByteSize_append, ih]
    rfl

def mailOf (acknowledged unread : Nat) : Registry :=
  { Registry.empty with
    messages := [quotaMessage "0" "other" .acknowledged acknowledged,
      quotaMessage "1" "recipient" .unread unread] }

theorem liveFor_mailOf (a b : Nat) :
    liveFor (mailOf a b) "recipient" 1000000 = [quotaMessage "1" "recipient" .unread b] := by
  simp [liveFor, mailOf, quotaMessage, countsTowardQuota, MessageState.terminal]

theorem registryMessageBytes_mailOf (a b : Nat) : registryMessageBytes (mailOf a b) = a + b := by
  have hmessages : (mailOf a b).messages.filter (fun m => m.state ≠ .deleted) =
      (mailOf a b).messages := by simp [mailOf, quotaMessage]
  rw [registryMessageBytes, hmessages]
  simp only [mailOf, map_cons, map_nil, quotaMessage_bodyBytes, sum_cons,
    sum_nil, Nat.add_zero]

theorem not_rateLimited_mailOf (a b : Nat) :
    ¬ RateLimited (mailOf a b) (.session "new-sender") "recipient" 1000000 1000000000 := by
  simp [RateLimited, pairCount, mailOf, quotaMessage, pairRatePerMinute, pairBurst]

end NilsCli.Coordination
