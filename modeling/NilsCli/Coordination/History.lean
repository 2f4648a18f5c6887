import Mathlib.Algebra.Order.BigOperators.Group.List
import NilsCli.Lib.Eviction
import NilsCli.Coordination.Maintenance

/-!
# What retention keeps

The terminal history is bounded by dropping its oldest messages (`compactTerminalRecords`), and
every message is dropped some time after it became terminal (`maintainRetention`).
-/

namespace NilsCli.Coordination

open Lib List

variable {a b : StoredMessage} {xs ys : List StoredMessage} {x : NotificationReceipt}

variable {codec : Codec} {env : Env} {r : Registry} {messages : List StoredMessage}
  {m : StoredMessage} {now : Int} {id : String}

/-! ## The order of the history -/

def historyLe (a b : StoredMessage) : Bool :=
  a.terminalAtEpoch.getD 0 < b.terminalAtEpoch.getD 0 ||
    (a.terminalAtEpoch.getD 0 = b.terminalAtEpoch.getD 0 && (textLt a.messageId b.messageId ||
      (a.messageId = b.messageId && a.bodyBytes ≤ b.bodyBytes)))

theorem terminalHistory_eq (messages : List StoredMessage) :
    terminalHistory messages = sortBy historyLe (messages.filter fun m => m.state.terminal) := rfl

theorem historyLe_iff :
    historyLe a b ↔ a.terminalAtEpoch.getD 0 < b.terminalAtEpoch.getD 0 ∨
      a.terminalAtEpoch.getD 0 = b.terminalAtEpoch.getD 0 ∧
        (textLe a.messageId b.messageId ∧ a.messageId ≠ b.messageId ∨
          a.messageId = b.messageId ∧ a.bodyBytes ≤ b.bodyBytes) := by
  unfold historyLe
  simp only [Bool.or_eq_true, Bool.and_eq_true, decide_eq_true_eq, textLt_iff]

theorem historyLe_refl (a : StoredMessage) : historyLe a a :=
  historyLe_iff.mpr (.inr ⟨rfl, .inr ⟨rfl, le_refl _⟩⟩)

theorem historyLe_total (a b : StoredMessage) : historyLe a b || historyLe b a := by
  rw [Bool.or_eq_true, historyLe_iff, historyLe_iff]
  rcases lt_trichotomy (a.terminalAtEpoch.getD 0) (b.terminalAtEpoch.getD 0) with h | h | h
  · exact .inl (.inl h)
  · by_cases hid : a.messageId = b.messageId
    · rcases Nat.le_total a.bodyBytes b.bodyBytes with hb | hb
      · exact .inl (.inr ⟨h, .inr ⟨hid, hb⟩⟩)
      · exact .inr (.inr ⟨h.symm, .inr ⟨hid.symm, hb⟩⟩)
    · have htotal := textLe_total a.messageId b.messageId
      rw [Bool.or_eq_true] at htotal
      rcases htotal with hle | hle
      · exact .inl (.inr ⟨h, .inl ⟨hle, hid⟩⟩)
      · exact .inr (.inr ⟨h.symm, .inl ⟨hle, Ne.symm hid⟩⟩)
  · exact .inr (.inl h)

theorem historyLe_trans {c : StoredMessage} (h : historyLe a b) (h' : historyLe b c) :
    historyLe a c := by
  rw [historyLe_iff] at *
  refine lex_trans h h' fun h h' => ?_
  rcases h with ⟨hle, hne⟩ | ⟨hid, hb⟩ <;> rcases h' with ⟨hle', hne'⟩ | ⟨hid', hb'⟩
  · refine .inl ⟨textLe_trans hle hle', fun heq => hne (textLe_antisymm hle ?_)⟩
    rw [heq]
    exact hle'
  · exact .inl ⟨hid' ▸ hle, hid' ▸ hne⟩
  · exact .inl ⟨hid ▸ hle', hid ▸ hne'⟩
  · exact .inr ⟨hid.trans hid', le_trans hb hb'⟩

theorem historyLe_antisymm (h : historyLe a b) (h' : historyLe b a) :
    a.messageId = b.messageId := by
  rw [historyLe_iff] at h h'
  rcases h with h | ⟨heq, ⟨hle, -⟩ | ⟨hid, -⟩⟩
  · rcases h' with h' | ⟨heq, -⟩ <;> omega
  · rcases h' with h' | ⟨-, ⟨hle', -⟩ | ⟨hid, -⟩⟩
    · omega
    · exact textLe_antisymm hle hle'
    · exact hid.symm
  · exact hid

theorem pairwise_terminalHistory (messages : List StoredMessage) :
    (terminalHistory messages).Pairwise fun a b => historyLe a b :=
  pairwise_sortBy historyLe_total historyLe_trans _

/-! ## Compaction -/

/-- The history is within its bounds. -/
def FitsHistory (history : List StoredMessage) : Prop :=
  history.length ≤ maxTerminalMessages ∧ (history.map (·.bodyBytes)).sum ≤ maxTerminalBytes

instance (history : List StoredMessage) : Decidable (FitsHistory history) :=
  inferInstanceAs (Decidable (_ ∧ _))

theorem FitsHistory.mono (h : xs.Sublist ys) (hf : FitsHistory ys) :
    FitsHistory xs :=
  ⟨le_trans h.length_le hf.1,
    le_trans ((h.map _).sum_le_sum fun _ _ => Nat.zero_le _) hf.2⟩

theorem FitsHistory.perm (h : xs.Perm ys) :
    FitsHistory xs ↔ FitsHistory ys := by
  unfold FitsHistory
  rw [h.length_eq, (h.map _).sum_eq]

theorem compactionPlan_eq (history : List StoredMessage) :
    compactionPlan history.length (history.map (·.bodyBytes)).sum history =
      (evicted FitsHistory history).map (·.messageId) := by
  induction history with
  | nil => rfl
  | cons m history ih =>
    rw [compactionPlan, evicted]
    by_cases h : FitsHistory (m :: history)
    · rw [if_pos h]
      exact if_pos h
    · rw [if_neg h, map_cons (l := evicted FitsHistory history), ← ih]
      refine (if_neg h).trans ?_
      rw [length_cons, map_cons, sum_cons, Nat.add_sub_cancel,
        Nat.add_sub_cancel_left]

/-- Compaction drops this id: some terminal message of that id is too old for the bounds. -/
def Compacted (messages : List StoredMessage) (id : String) : Prop :=
  ∃ x ∈ messages, x.state.terminal ∧ x.messageId = id ∧
    ¬ FitsHistory (messages.filter fun y => y.state.terminal && historyLe x y)

theorem mem_compactionPlan :
    id ∈ compactionPlan (terminalHistory messages).length
        ((terminalHistory messages).map (·.bodyBytes)).sum (terminalHistory messages) ↔
      Compacted messages id := by
  rw [compactionPlan_eq, evicted_key_iff historyLe historyLe_refl historyLe_trans _
    historyLe_antisymm FitsHistory.mono (pairwise_terminalHistory messages)]
  have hperm (x : StoredMessage) : ((terminalHistory messages).filter (historyLe x)).Perm
      (messages.filter fun y => y.state.terminal && historyLe x y) := by
    refine ((perm_sortBy _ _).filter _).trans ?_
    rw [filter_filter]
    simp only [Bool.and_comm]
    exact .refl _
  unfold Compacted
  constructor
  · rintro ⟨x, hx, hid, hno⟩
    obtain ⟨hmem, hterminal⟩ := List.mem_filter.mp (mem_sortBy.mp hx)
    exact ⟨x, hmem, hterminal, hid, fun hf => hno ((FitsHistory.perm (hperm x)).mpr hf)⟩
  · rintro ⟨x, hmem, hterminal, hid, hno⟩
    refine ⟨x, mem_sortBy.mpr (List.mem_filter.mpr ⟨hmem, hterminal⟩), hid, fun hf => hno ?_⟩
    exact (FitsHistory.perm (hperm x)).mp hf

theorem mem_compactTerminalRecords :
    m ∈ (compactTerminalRecords r).messages ↔ m ∈ r.messages ∧ ¬ Compacted r.messages m.messageId := by
  unfold compactTerminalRecords
  dsimp only
  rw [mem_filter, decide_eq_true_eq, mem_compactionPlan]

theorem compactTerminalRecords_fits :
    FitsHistory ((compactTerminalRecords r).messages.filter fun m => m.state.terminal) := by
  have hnil : FitsHistory [] := ⟨Nat.zero_le _, Nat.zero_le _⟩
  generalize hplan : compactionPlan (terminalHistory r.messages).length
    ((terminalHistory r.messages).map (·.bodyBytes)).sum (terminalHistory r.messages) = plan
  have hmessages : (compactTerminalRecords r).messages =
      r.messages.filter fun m => m.messageId ∉ plan := by
    rw [← hplan]
    rfl
  have hperm : ((compactTerminalRecords r).messages.filter fun m => m.state.terminal).Perm
      ((terminalHistory r.messages).filter fun m => m.messageId ∉ plan) := by
    rw [hmessages, filter_filter]
    refine (List.Perm.of_eq ?_).trans ((perm_sortBy _ _).filter _).symm
    rw [filter_filter]
    simp only [Bool.and_comm]
  rw [FitsHistory.perm hperm]
  have hevicted : (evicted FitsHistory (terminalHistory r.messages)).filter
      (fun m => decide (m.messageId ∉ plan)) = [] := by
    refine List.filter_eq_nil_iff.mpr fun m hm => ?_
    rw [decide_eq_true_eq, not_not, ← hplan, compactionPlan_eq]
    exact mem_map_of_mem hm
  have hkept : (terminalHistory r.messages).filter (fun m => decide (m.messageId ∉ plan)) =
      (kept FitsHistory (terminalHistory r.messages)).filter
        (fun m => decide (m.messageId ∉ plan)) := by
    conv_lhs => rw [← evicted_append_kept FitsHistory (terminalHistory r.messages)]
    rw [filter_append, hevicted, nil_append]
  rw [hkept]
  exact FitsHistory.mono filter_sublist (fits_kept hnil _)

/-! ## Retention -/

/-- Retention drops this id: some message of that id has been terminal for too long. -/
def TimedOut (now : Int) (messages : List StoredMessage) (id : String) : Prop :=
  ∃ x ∈ messages, x.messageId = id ∧ retentionOver now (expireMessage now x)

def inTime (now : Int) (messages : List StoredMessage) : List StoredMessage :=
  let messages := messages.map (expireMessage now)
  messages.filter fun m => m.messageId ∉ (messages.filter (retentionOver now)).map (·.messageId)

/-- Retention keeps the messages of this id. -/
def Retained (now : Int) (messages : List StoredMessage) (id : String) : Prop :=
  ¬ TimedOut now messages id ∧ ¬ Compacted (inTime now messages) id

theorem expireMessage_same (now : Int) (m : StoredMessage) :
    (expireMessage now m).messageId = m.messageId ∧
      (expireMessage now m).recipientSessionId = m.recipientSessionId ∧
      (expireMessage now m).recipientIncarnation = m.recipientIncarnation := by
  unfold expireMessage
  split
  · exact ⟨rfl, rfl, rfl⟩
  · split <;> exact ⟨rfl, rfl, rfl⟩

theorem mem_removed :
    id ∈ ((messages.map (expireMessage now)).filter (retentionOver now)).map (·.messageId) ↔
      TimedOut now messages id := by
  simp only [mem_map, mem_filter]
  constructor
  · rintro ⟨_, ⟨⟨x, hx, rfl⟩, hover⟩, hid⟩
    exact ⟨x, hx, (expireMessage_same now x).1 ▸ hid, hover⟩
  · rintro ⟨x, hx, hid, hover⟩
    exact ⟨_, ⟨⟨x, hx, rfl⟩, hover⟩, (expireMessage_same now x).1.trans hid⟩

theorem mem_inTime : m ∈ inTime now messages ↔
    ∃ x ∈ messages, m = expireMessage now x ∧ ¬ TimedOut now messages x.messageId := by
  unfold inTime
  dsimp only
  rw [mem_filter, decide_eq_true_eq, mem_removed, mem_map]
  constructor
  · rintro ⟨⟨x, hx, rfl⟩, hno⟩
    exact ⟨x, hx, rfl, (expireMessage_same now x).1 ▸ hno⟩
  · rintro ⟨x, hx, rfl, hno⟩
    exact ⟨⟨x, hx, rfl⟩, (expireMessage_same now x).1.symm ▸ hno⟩

theorem mem_maintainRetention : m ∈ (maintainRetention now r).messages ↔
    ∃ x ∈ r.messages, m = expireMessage now x ∧ Retained now r.messages x.messageId := by
  unfold maintainRetention
  rw [mem_compactTerminalRecords]
  show m ∈ inTime now r.messages ∧ ¬ Compacted (inTime now r.messages) m.messageId ↔ _
  rw [mem_inTime]
  constructor
  · rintro ⟨⟨x, hx, rfl, hno⟩, hkept⟩
    exact ⟨x, hx, rfl, hno, (expireMessage_same now x).1 ▸ hkept⟩
  · rintro ⟨x, hx, rfl, hno, hkept⟩
    exact ⟨⟨x, hx, rfl, hno⟩, (expireMessage_same now x).1.symm ▸ hkept⟩

theorem targetRetained_mono {messages' : List StoredMessage} (h : messages ⊆ messages')
    (ht : targetRetained messages x) : targetRetained messages' x := by
  obtain ⟨m, hm, ha⟩ := List.any_eq_true.mp ht
  exact List.any_eq_true.mpr ⟨m, h hm, ha⟩

theorem names_removed_iff {k : NotificationKey} :
    k.names (((messages.map (expireMessage now)).filter (retentionOver now)).map (·.messageId)) ↔
      ∃ id, k = .message id ∧ TimedOut now messages id := by
  cases k with
  | message id =>
    unfold NotificationKey.names
    dsimp only
    rw [decide_eq_true_eq, mem_removed]
    simp
  | recipient => simp [NotificationKey.names]

theorem lookup_maintainRetention {k : NotificationKey} :
    (maintainRetention now r).notifications.lookup k = some x ↔
      r.notifications.lookup k = some x ∧ (∀ id, k = .message id → ¬ TimedOut now r.messages id) ∧
        targetRetained (maintainRetention now r).messages x := by
  have hsub : (maintainRetention now r).messages ⊆ inTime now r.messages := fun m hm =>
    (mem_compactTerminalRecords.mp hm).1
  have hnames := @names_removed_iff r.messages now k
  show (Table.filter (fun _ x => targetRetained (maintainRetention now r).messages x)
    (Table.filter (fun key receipt =>
      !key.names (((r.messages.map (expireMessage now)).filter (retentionOver now)).map
        (·.messageId)) &&
      (quotaPending now receipt || targetRetained (inTime now r.messages) receipt))
      r.notifications)).lookup k = some x ↔ _
  rw [Table.lookup_filter, Option.filter_eq_some_iff, Table.lookup_filter,
    Option.filter_eq_some_iff]
  constructor
  · rintro ⟨⟨hl, hkeep⟩, ht⟩
    rw [Bool.and_eq_true, Bool.not_eq_true'] at hkeep
    refine ⟨hl, fun id hk hout => ?_, ht⟩
    rw [hnames.mpr ⟨id, hk, hout⟩] at hkeep
    exact absurd hkeep.1 (by simp)
  · rintro ⟨hl, hkey, ht⟩
    refine ⟨⟨hl, ?_⟩, ht⟩
    rw [Bool.and_eq_true, Bool.not_eq_true', Bool.or_eq_true]
    refine ⟨?_, .inr (targetRetained_mono hsub ht)⟩
    by_contra hno
    obtain ⟨id, hk, hout⟩ := hnames.mp (by simpa using hno)
    exact hkey id hk hout

end NilsCli.Coordination
