import NilsCli.Coordination.History
import NilsCli.Coordination.MailLife
import NilsCli.Coordination.Refusal

/-!
# Upkeep of the registry

`maintainRetention` and `cleanExpired` lose nothing that is live, settle (a second call at the same
time changes nothing), and report a change exactly if there is one.
-/

namespace NilsCli.Coordination

open Lib List

variable {codec : Codec} {env : Env} {r : Registry} {m : StoredMessage} {now : Int}

/-! ## Reports -/

theorem expiresMessage_iff : expiresMessage now m = false ↔ expireMessage now m = m := by
  unfold expiresMessage expireMessage
  split_ifs with h h'
  · rw [h]
    simp only [Bool.true_or, Bool.true_eq_false, false_iff]
    intro heq
    have hstate : m.state = .expired := (congrArg StoredMessage.state heq).symm
    simp [hstate, MessageState.terminal] at h
  · rw [h', Bool.or_true]
    simp only [Bool.true_eq_false, false_iff]
    intro heq
    have hnone := congrArg StoredMessage.terminalAtEpoch heq
    rw [Bool.and_eq_true, Option.isNone_iff_eq_none, ← hnone] at h'
    cases h'.2
  · simp [h, h']

theorem expiresLease_iff {lease : OperationLease} :
    expiresLease now lease = false ↔ expireLease now lease = lease := by
  unfold expiresLease expireLease
  split_ifs with h h'
  · simp only [h.1, h.2, decide_true, Bool.and_self, Bool.true_or, Bool.true_eq_false, false_iff]
    intro heq
    have hstate := congrArg OperationLease.state heq
    rw [h.1] at hstate
    cases hstate
  · rw [h'.2]
    simp only [h'.1, Bool.not_false, Option.isNone_none, Bool.and_self, Bool.or_true,
      Bool.true_eq_false, false_iff]
    intro heq
    have hnone := congrArg OperationLease.terminalAtEpoch heq
    rw [h'.2] at hnone
    cases hnone
  · simp only [iff_true, Bool.or_eq_false_iff]
    refine ⟨?_, ?_⟩
    · simpa using h
    · simpa [Option.isSome_iff_ne_none] using h'

theorem expiresClaim_iff {brokers : Table String BrokerRecord} {operations : List OperationLease}
    {claim : WorkContextRecord} :
    expiresClaim env brokers operations now claim = false ↔
      expireClaim env brokers operations now claim = claim := by
  unfold expiresClaim expireClaim
  split_ifs with h h'
  · simp only [h.1, h.2.1, h.2.2.1, h.2.2.2, decide_true, Bool.not_false, Bool.and_self,
      Bool.true_or, Bool.true_eq_false, false_iff]
    intro heq
    have hstate := congrArg WorkContextRecord.state heq
    rw [h.1] at hstate
    cases hstate
  · simp only [h'.1, h'.2, ne_eq, not_false_eq_true, decide_true, Option.isNone_none,
      Bool.and_self, Bool.or_true, Bool.true_eq_false, false_iff]
    intro heq
    have hnone := congrArg WorkContextRecord.terminalAtEpoch heq
    rw [h'.2] at hnone
    cases hnone
  · simp only [iff_true, Bool.or_eq_false_iff]
    refine ⟨?_, ?_⟩
    · simpa using h
    · simpa [Option.isSome_iff_ne_none] using h'

theorem any_eq_false_iff {α : Type} {changes : α → Bool} {f : α → α} {xs : List α}
    (h : ∀ x, changes x = false ↔ f x = x) : xs.any changes = false ↔ ∀ x ∈ xs, f x = x := by
  rw [any_eq_false]
  simp only [Bool.not_eq_true, h]

theorem compactTerminalRecords_sublist :
    (compactTerminalRecords r).messages.Sublist r.messages := filter_sublist

theorem compactTerminalRecordsChanged_iff : compactTerminalRecordsChanged r = false ↔
    (compactTerminalRecords r).messages.length = r.messages.length := by
  unfold compactTerminalRecordsChanged
  dsimp only
  rw [Bool.not_eq_false', List.isEmpty_iff]
  constructor
  · intro hnil
    unfold compactTerminalRecords
    dsimp only
    rw [hnil]
    simp
  · intro hlen
    have hall := compactTerminalRecords_sublist.eq_of_length hlen
    refine List.eq_nil_iff_forall_not_mem.mpr fun id hid => ?_
    obtain ⟨x, hx, -, rfl, -⟩ := mem_compactionPlan.mp hid
    rw [← hall] at hx
    exact (mem_compactTerminalRecords.mp hx).2 (mem_compactionPlan.mp hid)

theorem maintainRetention_sublist :
    (maintainRetention now r).messages.Sublist (r.messages.map (expireMessage now)) :=
  compactTerminalRecords_sublist.trans filter_sublist

theorem maintainRetention_eq_self_iff : maintainRetention now r = r ↔
    (maintainRetention now r).quotaRejections = r.quotaRejections ∧
      (maintainRetention now r).messages = r.messages ∧
      (maintainRetention now r).notifications = r.notifications ∧
      (maintainRetention now r).receipts = r.receipts := by
  constructor
  · intro h
    rw [h]
    exact ⟨rfl, rfl, rfl, rfl⟩
  · rintro ⟨hq, hm, hn, hr⟩
    have heq : maintainRetention now r =
        { r with
          quotaRejections := (maintainRetention now r).quotaRejections
          messages := (maintainRetention now r).messages
          notifications := (maintainRetention now r).notifications
          receipts := (maintainRetention now r).receipts } := rfl
    rw [heq, hq, hm, hn, hr]

theorem maintainRetentionChanged_iff :
    maintainRetentionChanged now r = false ↔ maintainRetention now r = r := by
  have hq : (pruneQuotaRejections now r).quotaRejections.Sublist r.quotaRejections := filter_sublist
  have hn : (maintainRetention now r).notifications.entries.Sublist r.notifications.entries :=
    List.filter_sublist.trans filter_sublist
  have hr : (maintainRetention now r).receipts.entries.Sublist r.receipts.entries := filter_sublist
  unfold maintainRetentionChanged
  simp only [Bool.or_eq_false_iff, decide_eq_false_iff_not, not_not,
    any_eq_false_iff (fun m => @expiresMessage_iff m now), compactTerminalRecordsChanged_iff]
  rw [maintainRetention_eq_self_iff, eq_self_iff_of_sublist_map maintainRetention_sublist,
    Table.eq_self_iff_of_sublist hn, Table.eq_self_iff_of_sublist hr]
  constructor
  · rintro ⟨⟨⟨⟨⟨hqlen, hsame⟩, -⟩, hmlen⟩, hnsize⟩, hrsize⟩
    exact ⟨hq.eq_of_length hqlen, ⟨hsame, hmlen⟩, hnsize, hrsize⟩
  · rintro ⟨hqeq, ⟨hsame, hmlen⟩, hnsize, hrsize⟩
    refine ⟨⟨⟨⟨⟨congrArg List.length hqeq, hsame⟩, ?_⟩, hmlen⟩, hnsize⟩, hrsize⟩
    have hfirst : (dropTimedOut now r).messages.length ≤ r.messages.length := by
      have hle := (filter_sublist : (dropTimedOut now r).messages.Sublist
        (r.messages.map (expireMessage now))).length_le
      rwa [length_map] at hle
    have hsecond := (@compactTerminalRecords_sublist (dropTimedOut now r)).length_le
    change (compactTerminalRecords (dropTimedOut now r)).messages.length = _ at hmlen
    omega

def expireWork (env : Env) (now : Int) (r : Registry) : Registry :=
  { r with
    operations := r.operations.map (expireLease now)
    claims := r.claims.map (expireClaim env r.brokers (r.operations.map (expireLease now)) now) }

theorem cleanExpired_eq (env : Env) (now : Int) (r : Registry) : cleanExpired env now r =
    { maintainRetention now (expireWork env now r) with
      operations := (expireWork env now r).operations.filter fun operation =>
        terminalRetained now operation.terminalAtEpoch
      claims := (expireWork env now r).claims.filter fun claim =>
        terminalRetained now claim.terminalAtEpoch
      cursors := Table.filter (fun _ cursor => decide (cursor.expiresAtEpoch > now)) r.cursors
      advisoryAcknowledgements := Table.filter (fun _ advisory => decide (advisory.epoch > now))
        r.advisoryAcknowledgements
      advisoryObservations := Table.filter (fun _ advisory =>
        decide (advisory.epoch > i64Sub now receiptTtlSecs)) r.advisoryObservations
      completionEvents := r.completionEvents.filter (eventRetained (cleanExpired env now r).operations
        now) } := rfl

theorem cleanExpiredChanged_iff :
    cleanExpiredChanged env now r = false ↔ cleanExpired env now r = r := by
  have hoperations : (cleanExpired env now r).operations.Sublist
      (r.operations.map (expireLease now)) := filter_sublist
  have hclaims : (cleanExpired env now r).claims.Sublist
      (r.claims.map (expireClaim env r.brokers (r.operations.map (expireLease now)) now)) :=
    filter_sublist
  have hevents : (cleanExpired env now r).completionEvents.Sublist r.completionEvents :=
    filter_sublist
  have hcursors : (cleanExpired env now r).cursors.entries.Sublist r.cursors.entries :=
    filter_sublist
  have hacks : (cleanExpired env now r).advisoryAcknowledgements.entries.Sublist
    r.advisoryAcknowledgements.entries := filter_sublist
  have hseen : (cleanExpired env now r).advisoryObservations.entries.Sublist
    r.advisoryObservations.entries := filter_sublist
  have hwork (hl : ∀ x ∈ r.operations, expireLease now x = x)
      (hc : ∀ x ∈ r.claims,
        expireClaim env r.brokers (r.operations.map (expireLease now)) now x = x) :
      expireWork env now r = r := by
    unfold expireWork
    rw [map_congr_left (g := id) hl, map_id] at hc ⊢
    rw [map_congr_left (g := id) hc, map_id]
  unfold cleanExpiredChanged
  simp only [Bool.or_eq_false_iff, decide_eq_false_iff_not, not_not, length_map,
    any_eq_false_iff (fun lease => @expiresLease_iff now lease),
    any_eq_false_iff (fun claim => @expiresClaim_iff env now r.brokers _ claim)]
  change (((((((_ ∧ _) ∧ maintainRetentionChanged now (expireWork env now r) = false) ∧ _) ∧ _) ∧
    _) ∧ _) ∧ _) ∧ _ ↔ _
  rw [maintainRetentionChanged_iff]
  constructor
  · rintro ⟨⟨⟨⟨⟨⟨⟨⟨hl, hc⟩, hmail⟩, hlen⟩, hclen⟩, hcur⟩, hack⟩, hobs⟩, hev⟩
    have hsame := hwork hl hc
    have hops := (eq_self_iff_of_sublist_map hoperations).mpr ⟨hl, hlen⟩
    have hcls := (eq_self_iff_of_sublist_map hclaims).mpr ⟨hc, hclen⟩
    have heq : cleanExpired env now r =
        { maintainRetention now (expireWork env now r) with
          operations := (cleanExpired env now r).operations
          claims := (cleanExpired env now r).claims
          cursors := (cleanExpired env now r).cursors
          advisoryAcknowledgements := (cleanExpired env now r).advisoryAcknowledgements
          advisoryObservations := (cleanExpired env now r).advisoryObservations
          completionEvents := (cleanExpired env now r).completionEvents } := rfl
    rw [heq, hops, hcls, (Table.eq_self_iff_of_sublist hcursors).mpr hcur,
      (Table.eq_self_iff_of_sublist hacks).mpr hack, (Table.eq_self_iff_of_sublist hseen).mpr hobs,
      hevents.eq_of_length hev, hmail, hsame]
  · intro heq
    obtain ⟨hl, hlen⟩ := (eq_self_iff_of_sublist_map hoperations).mp
      (congrArg Registry.operations heq)
    obtain ⟨hc, hclen⟩ := (eq_self_iff_of_sublist_map hclaims).mp (congrArg Registry.claims heq)
    have hsame := hwork hl hc
    have hpart {β : Type} (field : Registry → β) (hfield : field (cleanExpired env now r) =
        field (maintainRetention now (expireWork env now r))) :
        field (maintainRetention now r) = field r := by
      rw [hsame] at hfield
      exact hfield.symm.trans (congrArg field heq)
    have hmail : maintainRetention now r = r := maintainRetention_eq_self_iff.mpr
      ⟨hpart (·.quotaRejections) rfl, hpart (·.messages) rfl, hpart (·.notifications) rfl,
        hpart (·.receipts) rfl⟩
    exact ⟨⟨⟨⟨⟨⟨⟨⟨hl, hc⟩, by rw [hsame, hmail]⟩, hlen⟩, hclen⟩,
      congrArg (·.cursors.size) heq⟩, congrArg (·.advisoryAcknowledgements.size) heq⟩,
      congrArg (·.advisoryObservations.size) heq⟩, congrArg (·.completionEvents.length) heq⟩

/-! ## A second run -/

theorem expireMessage_idem (now : Int) (m : StoredMessage) :
    expireMessage now (expireMessage now m) = expireMessage now m := by
  rw [← expiresMessage_iff]
  unfold expiresMessage expireMessage
  split_ifs with h h'
  · simp [MessageState.terminal]
  · simp only [Bool.and_eq_true] at h'
    simp [h'.1]
  · simp [h, h']

theorem expireLease_idem (now : Int) (lease : OperationLease) :
    expireLease now (expireLease now lease) = expireLease now lease := by
  rw [← expiresLease_iff]
  unfold expiresLease expireLease
  split_ifs with h h'
  · simp [OperationLease.nonterminal, LeaseState.nonterminal]
  · have hstate : lease.state ≠ .active := by
      intro hs
      simp [OperationLease.nonterminal, hs, LeaseState.nonterminal] at h'
    simp [hstate]
  · simp only [Bool.or_eq_false_iff]
    refine ⟨?_, ?_⟩
    · simpa using h
    · simpa [Option.isSome_iff_ne_none] using h'

theorem expireClaim_idem (env : Env) (brokers : Table String BrokerRecord)
    (operations : List OperationLease) (now : Int) (claim : WorkContextRecord) :
    expireClaim env brokers operations now (expireClaim env brokers operations now claim) =
      expireClaim env brokers operations now claim := by
  by_cases h : expiresClaim env brokers operations now claim = false
  · rw [expiresClaim_iff.mp h, expiresClaim_iff.mp h]
  · rw [← expiresClaim_iff]
    unfold expiresClaim expireClaim
    split_ifs with h₁ h₂
    · simp
    · simp [h₂.1]
    · exact absurd (expiresClaim_iff.mpr (by rw [expireClaim, if_neg h₁, if_neg h₂])) h

theorem not_retentionOver (hm : m ∈ (maintainRetention now r).messages) : ¬ retentionOver now m := by
  obtain ⟨x, hx, rfl, hno, -⟩ := mem_maintainRetention.mp hm
  exact fun hover => hno ⟨x, hx, rfl, hover⟩

theorem maintainRetention_idem (now : Int) (r : Registry) :
    maintainRetention now (maintainRetention now r) = maintainRetention now r := by
  generalize hr' : maintainRetention now r = r'
  have hexpired : ∀ m ∈ r'.messages, expireMessage now m = m := by
    intro m hm
    rw [← hr'] at hm
    obtain ⟨x, -, rfl, -⟩ := mem_maintainRetention.mp hm
    exact expireMessage_idem now x
  have hmap : r'.messages.map (expireMessage now) = r'.messages := by
    rw [map_congr_left (g := id) hexpired, map_id]
  have hremoved : r'.messages.filter (retentionOver now) = [] :=
    List.filter_eq_nil_iff.mpr fun m hm => not_retentionOver (hr' ▸ hm)
  have hfits : FitsHistory (terminalHistory r'.messages) := by
    rw [terminalHistory_eq, FitsHistory.perm (perm_sortBy _ _), ← hr']
    exact compactTerminalRecords_fits
  have hplan : compactionPlan (terminalHistory r'.messages).length
      ((terminalHistory r'.messages).map (·.bodyBytes)).sum (terminalHistory r'.messages) = [] := by
    rw [compactionPlan_eq, evicted_of_fits hfits, map_nil]
  have hreceipts : Table.filter (fun _ receipt => decide (receipt.expiresAtEpoch > now))
      r'.receipts = r'.receipts := by
    refine Table.filter_eq_self fun k x hx => ?_
    rw [← hr'] at hx
    change (Table.filter _ r.receipts).lookup k = some x at hx
    rw [Table.lookup_filter, Option.filter_eq_some_iff] at hx
    exact hx.2
  have hquota : r'.quotaRejections.filter (fun event =>
      event.occurredAtEpoch > i64Sub now (24 * 60 * 60)) = r'.quotaRejections := by
    rw [← hr']
    refine List.filter_eq_self.mpr fun event hevent => ?_
    exact (List.mem_filter.mp hevent).2
  have hmessages : (maintainRetention now r').messages = r'.messages := by
    unfold maintainRetention compactTerminalRecords dropTimedOut pruneQuotaRejections
    simp [hmap, hremoved, hplan]
  have htarget : ∀ k x, r'.notifications.lookup k = some x → targetRetained r'.messages x := by
    intro k x hx
    rw [← hr'] at hx ⊢
    exact (lookup_maintainRetention.mp hx).2.2
  refine maintainRetention_eq_self_iff.mpr ⟨hquota, hmessages, ?_, hreceipts⟩
  change Table.filter (fun _ x => targetRetained (maintainRetention now r').messages x)
    (Table.filter (fun key receipt =>
      !key.names (((r'.messages.map (expireMessage now)).filter (retentionOver now)).map
        (·.messageId)) &&
      (quotaPending now receipt || targetRetained (inTime now r'.messages) receipt))
      r'.notifications) = r'.notifications
  have hin : inTime now r'.messages = r'.messages := by
    unfold inTime
    simp [hmap, hremoved]
  have hinner : Table.filter (fun key receipt =>
      !key.names (([] : List StoredMessage).map (·.messageId)) &&
      (quotaPending now receipt || targetRetained r'.messages receipt)) r'.notifications =
      r'.notifications := by
    refine Table.filter_eq_self fun k x hx => ?_
    have hnames : k.names (([] : List StoredMessage).map (·.messageId)) = false := by
      cases k <;> rfl
    rw [hnames, htarget k x hx]
    simp
  rw [hmessages, hmap, hremoved, hin, hinner]
  exact Table.filter_eq_self htarget

theorem hasNonterminalOperation_retained (h : LeasesOpen r) (claimId : String) :
    hasNonterminalOperation (cleanExpired env now r).operations claimId =
      hasNonterminalOperation (r.operations.map (expireLease now)) claimId := by
  unfold hasNonterminalOperation
  rw [Bool.eq_iff_iff, any_eq_true, any_eq_true]
  constructor
  · rintro ⟨lease, hl, hp⟩
    exact ⟨lease, (List.mem_filter.mp hl).1, hp⟩
  · rintro ⟨lease, hl, hp⟩
    refine ⟨lease, List.mem_filter.mpr ⟨hl, ?_⟩, hp⟩
    obtain ⟨x, hx, rfl⟩ := List.mem_map.mp hl
    rw [Bool.and_eq_true, decide_eq_true_eq] at hp
    have hnone : (expireLease now x).terminalAtEpoch = none :=
      (@expireLease_step (fun _ => False) (fun _ => False) now x).terminalAt (h x hx) hp.2
    rw [terminalRetained, hnone]
    rfl

theorem expireClaim_congr {brokers : Table String BrokerRecord}
    {operations operations' : List OperationLease} {claim : WorkContextRecord}
    (h : hasNonterminalOperation operations' claim.claimId =
      hasNonterminalOperation operations claim.claimId) :
    expireClaim env brokers operations' now claim = expireClaim env brokers operations now claim := by
  unfold expireClaim
  rw [h]

theorem cleanExpired_idem (env : Env) (now : Int) (h : LeasesOpen r) :
    cleanExpired env now (cleanExpired env now r) = cleanExpired env now r := by
  have hbound := @hasNonterminalOperation_retained env r now h
  generalize hr' : cleanExpired env now r = r' at hbound ⊢
  have hops : r'.operations.map (expireLease now) = r'.operations := by
    rw [map_congr_left (g := id) fun lease hl => ?_, map_id]
    rw [← hr'] at hl
    obtain ⟨x, -, rfl⟩ := List.mem_map.mp (List.mem_filter.mp hl).1
    exact expireLease_idem now x
  have hclaims : r'.claims.map (expireClaim env r'.brokers r'.operations now) = r'.claims := by
    rw [map_congr_left (g := id) fun claim hc => ?_, map_id]
    rw [expireClaim_congr (hbound claim.claimId)]
    have hbrokers : r'.brokers = r.brokers := by rw [← hr']; rfl
    rw [← hr'] at hc
    obtain ⟨x, -, rfl⟩ := List.mem_map.mp (List.mem_filter.mp hc).1
    rw [hbrokers]
    exact expireClaim_idem env r.brokers _ now x
  have hwork : expireWork env now r' = r' := by
    unfold expireWork
    rw [hops, hclaims]
  have hmail : maintainRetention now r' = r' := by
    have hidem := maintainRetention_idem now (expireWork env now r)
    rw [maintainRetention_eq_self_iff] at hidem ⊢
    rw [← hr']
    exact hidem
  have hrest (t : Registry) (ht : t = cleanExpired env now r) :
      t.operations.filter (fun x => terminalRetained now x.terminalAtEpoch) = t.operations ∧
      t.claims.filter (fun x => terminalRetained now x.terminalAtEpoch) = t.claims ∧
      t.completionEvents.filter (eventRetained t.operations now) = t.completionEvents := by
    subst ht
    refine ⟨?_, ?_, ?_⟩ <;> exact List.filter_eq_self.mpr fun x hx => (List.mem_filter.mp hx).2
  have htables : Table.filter (fun _ cursor => decide (cursor.expiresAtEpoch > now)) r'.cursors =
        r'.cursors ∧
      Table.filter (fun _ advisory => decide (advisory.epoch > now))
        r'.advisoryAcknowledgements = r'.advisoryAcknowledgements ∧
      Table.filter (fun _ advisory => decide (advisory.epoch > i64Sub now receiptTtlSecs))
        r'.advisoryObservations = r'.advisoryObservations := by
    rw [← hr']
    refine ⟨?_, ?_, ?_⟩ <;>
      exact AList.ext (List.filter_eq_self.mpr fun x hx => (List.mem_filter.mp hx).2)
  obtain ⟨hoperations, hclaims', hevents⟩ := hrest r' hr'.symm
  obtain ⟨hcursors, hacks, hseen⟩ := htables
  have heq := cleanExpired_eq env now r'
  have hops' : (cleanExpired env now r').operations = r'.operations := by
    rw [heq, hwork]
    exact hoperations
  rw [heq, hops', hwork, hmail, hoperations, hclaims', hcursors, hacks, hseen, hevents]

/-! ## What is kept -/

theorem live_kept (hk : WellKept r) (hm : m ∈ r.messages) (ht : ¬ m.state.terminal)
    (hlive : now < m.expiresAtEpoch) : m ∈ (maintainRetention now r).messages := by
  have hsame : expireMessage now m = m := by
    unfold expireMessage
    rw [if_neg, if_neg]
    · simp [ht]
    · simp only [Bool.and_eq_true, decide_eq_true_eq, not_and]
      omega
  have hunique : ∀ x ∈ r.messages, x.messageId = m.messageId → x = m := fun x hx hid =>
    eq_of_key_eq hk.ids hx hm hid
  refine mem_maintainRetention.mpr ⟨m, hm, hsame.symm, ?_, ?_⟩
  · rintro ⟨x, hx, hid, hover⟩
    rw [hunique x hx hid, hsame, retentionOver, hk.messages m hm ht] at hover
    cases hover
  · rintro ⟨y, hy, hterminal, hid, -⟩
    obtain ⟨x, hx, rfl, -⟩ := mem_inTime.mp hy
    rw [(expireMessage_same now x).1] at hid
    rw [hunique x hx hid, hsame] at hterminal
    exact ht hterminal

def OlderMessage (a b : StoredMessage) : Prop :=
  a.terminalAtEpoch.getD 0 < b.terminalAtEpoch.getD 0 ∨
    a.terminalAtEpoch.getD 0 = b.terminalAtEpoch.getD 0 ∧ textLt a.messageId b.messageId

theorem inTime_ids (now : Int) (messages : List StoredMessage) :
    ((inTime now messages).map (·.messageId)).Sublist (messages.map (·.messageId)) := by
  have hids : (messages.map (expireMessage now)).map (·.messageId) = messages.map (·.messageId) := by
    rw [map_map]
    exact map_congr_left fun m _ => (expireMessage_same now m).1
  rw [← hids]
  exact List.filter_sublist.map _

theorem oldest_dropped (hk : WellKept r) {dropped kept : StoredMessage}
    (hd : dropped ∈ inTime now r.messages) (hgone : dropped ∉ (maintainRetention now r).messages)
    (hkept : kept ∈ (maintainRetention now r).messages) (ht : kept.state.terminal) :
    OlderMessage dropped kept := by
  have hcompacted (m : StoredMessage) : m ∈ (maintainRetention now r).messages ↔
      m ∈ inTime now r.messages ∧ ¬ Compacted (inTime now r.messages) m.messageId :=
    mem_compactTerminalRecords
  rw [hcompacted] at hgone hkept
  obtain ⟨x, hx, hxt, hid, hno⟩ := not_not.mp fun h => hgone ⟨hd, h⟩
  obtain rfl : x = dropped := eq_of_key_eq ((inTime_ids now r.messages).nodup hk.ids) hx hd hid
  have hfits : FitsHistory ((inTime now r.messages).filter fun y =>
      y.state.terminal && historyLe kept y) := by
    by_contra hnot
    exact hkept.2 ⟨kept, hkept.1, ht, rfl, hnot⟩
  -- a message that is not older than a kept one is kept
  have hle : ¬ historyLe kept x := by
    intro hle
    refine hno (FitsHistory.mono (monotone_filter_right _ fun y hy => ?_) hfits)
    rw [Bool.and_eq_true] at hy ⊢
    exact ⟨hy.1, historyLe_trans hle hy.2⟩
  have htotal := historyLe_total x kept
  rw [Bool.or_eq_true, historyLe_iff] at htotal
  rcases htotal with (hlt | ⟨heq, ⟨hid', hne⟩ | ⟨hid', -⟩⟩) | hcontra
  · exact .inl hlt
  · exact .inr ⟨heq, textLt_iff.mpr ⟨hid', hne⟩⟩
  · exact absurd (hid' ▸ ⟨x, hx, hxt, rfl, hno⟩) hkept.2
  · exact absurd hcontra hle

structure Maintained (now : Int) (r r' : Registry) : Prop where
  live : ∀ m ∈ r.messages, ¬ m.state.terminal → now < m.expiresAtEpoch → m ∈ r'.messages
  receipts : ∀ k x, r.receipts.lookup k = some x → now < x.expiresAtEpoch →
    r'.receipts.lookup k = some x
  bounded : FitsHistory (r'.messages.filter fun m => m.state.terminal)
  oldest : ∀ dropped ∈ inTime now r.messages, dropped ∉ r'.messages →
    dropped.state.terminal ∧ ∀ kept ∈ r'.messages, kept.state.terminal → OlderMessage dropped kept

theorem maintainRetention_maintained (hk : WellKept r) :
    Maintained now r (maintainRetention now r) where
  live _ hm ht hlive := live_kept hk hm ht hlive
  receipts k x hx hlive := by
    change (Table.filter _ r.receipts).lookup k = some x
    rw [Table.lookup_filter, Option.filter_eq_some_iff]
    exact ⟨hx, decide_eq_true hlive⟩
  bounded := compactTerminalRecords_fits
  oldest dropped hd hgone := by
    refine ⟨?_, fun kept hkept ht => oldest_dropped hk hd hgone hkept ht⟩
    have hcompacted : Compacted (inTime now r.messages) dropped.messageId :=
      not_not.mp fun h => hgone (mem_compactTerminalRecords.mpr ⟨hd, h⟩)
    obtain ⟨x, hx, hxt, hid, -⟩ := hcompacted
    obtain rfl : x = dropped := eq_of_key_eq ((inTime_ids now r.messages).nodup hk.ids) hx hd hid
    exact hxt

/-- The registries of the runs are well kept. Maintenance of a well-kept registry keeps what is
live and bounds the history from its oldest end, maintenance settles, and it reports a change
exactly if there is one. -/
theorem retention_keeps_live :
    (∀ s : State, (freshSystem codec).Reach s → WellKept s.registry) ∧
    ∀ (r : Registry) (env : Env) (now : Int),
      (WellKept r → Maintained now r (maintainRetention now r) ∧
        Maintained now r (cleanExpired env now r) ∧
        cleanExpired env now (cleanExpired env now r) = cleanExpired env now r) ∧
      maintainRetention now (maintainRetention now r) = maintainRetention now r ∧
      (maintainRetentionChanged now r = false ↔ maintainRetention now r = r) ∧
      (cleanExpiredChanged env now r = false ↔ cleanExpired env now r = r) := by
  refine ⟨fun s => wellKept_of_reach, fun r env now => ⟨fun hk => ?_, ?_⟩⟩
  · have hmaintained := @maintainRetention_maintained r now hk
    exact ⟨hmaintained, { hmaintained with }, cleanExpired_idem env now hk.leases⟩
  · exact ⟨maintainRetention_idem now r, maintainRetentionChanged_iff, cleanExpiredChanged_iff⟩

/-- The message of the run is live for two hours. -/
theorem retention_keeps_live_sample :
    let r := (execAll sampleCodec mailRun ⟨Registry.empty, []⟩).registry
    Maintained 1010 r (cleanExpired (sampleEnv 1010 "id-4") 1010 r) ∧
      r.messages.length = 1 ∧ ∀ m ∈ r.messages, ¬ m.state.terminal ∧ 1010 < m.expiresAtEpoch := by
  intro r
  have hreach : (freshSystem sampleCodec).Reach (execAll sampleCodec mailRun ⟨Registry.empty, []⟩) :=
    ⟨_, mailRun, rfl, run_restrict_execAll (by decide +kernel) (fun _ _ => List.not_mem_nil)
      (by decide +kernel)⟩
  have hkept := (@retention_keeps_live sampleCodec).1 _ hreach
  exact ⟨(((@retention_keeps_live sampleCodec).2 r _ 1010).1 hkept).2.1, by decide +kernel,
    by decide +kernel⟩

/-- Messages are dropped by id, so in a registry that is not well kept a live message goes with an
old acknowledged message of its id. -/
theorem retention_drops_twin :
    let live := { quotaMessage "0" "beta" .unread 1 with expiresAtEpoch := 20000000 }
    let old := quotaMessage "0" "beta" .acknowledged 1
    let r := { Registry.empty with messages := [old, live] }
    ¬ live.state.terminal ∧ 10000000 < live.expiresAtEpoch ∧
      (maintainRetention 10000000 r).messages = [] ∧
      (cleanExpired (sampleEnv 10000000 "id-1") 10000000 r).messages = [] := by
  decide +kernel

end NilsCli.Coordination
